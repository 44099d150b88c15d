import MarketStream.Proofs.Json.Columns
import MarketStream.Settings

/-!
# Settings survive being written

The strict text of settings has every field of every section, so it is read back as the settings,
whatever the defaults are.

* `Security.read?_write`, `Reconnect.read?_write`, `Heartbeat.read?_write` — the sections;
* `decode?_write` — the settings.
-/

namespace MarketStream.Settings

open Json Columns

theorem isValue_writeUnsigned (n : UInt64) : IsValue (writeUnsigned n) := isValue_integer n.toNat

/-! ## Sections -/

/-- What is written of the security section. -/
def Security.columns (s : Security) : Columns :=
  [("accept_invalid_certs", some (writeBool s.acceptInvalidCerts)),
    ("accept_invalid_hostnames", some (writeBool s.acceptInvalidHostnames)),
    ("domain", some ((s.domain.map quote).getD writeNull))]

theorem Security.areValues_columns (s : Security) : s.columns.AreValues := by
  rw [columns]
  cases s.domain <;> simp [areValues_cons, areValues_nil, isValue_bool, isValue_quote, isValue_null]

theorem Security.isValue_write (s : Security) : IsValue s.write :=
  isValue_record s.areValues_columns.present

/-- The security section is read back. -/
theorem Security.read?_write (s : Security) : read? (s.write.map some) = some s := by
  have fields := fields?_record s.areValues_columns (by simp [columns])
  -- A domain that is not set is spelled as the absent value instead of being left out.
  have domain : optional? Json.text? (((s.domain.map quote).getD writeNull).map some)
      = some s.domain := by
    cases s.domain with
    | none => exact optional?_null
    | some name => exact optional?_quote name
  exact read_then fields <| read_then (orElse_fields_of_some rfl (truth?_bool _)) <|
    read_then (orElse_fields_of_some rfl (truth?_bool _)) <|
    read_then (orElse_fields_of_some rfl domain) <| rfl

/-- What is written of the reconnect section. -/
def Reconnect.columns (s : Reconnect) : Columns :=
  [("window_secs", some (writeUnsigned s.windowSecs)),
    ("delays_ms", some (list (s.delaysMs.map writeUnsigned)))]

theorem Reconnect.areValues_columns (s : Reconnect) : s.columns.AreValues := by
  have delays : IsValue (list (s.delaysMs.map writeUnsigned)) :=
    isValue_list (by simp [isValue_writeUnsigned])
  simp [columns, areValues_cons, areValues_nil, isValue_writeUnsigned, delays]

theorem Reconnect.isValue_write (s : Reconnect) : IsValue s.write :=
  isValue_record s.areValues_columns.present

/-- The reconnect section is read back. -/
theorem Reconnect.read?_write (s : Reconnect) : read? (s.write.map some) = some s := by
  have fields := fields?_record s.areValues_columns (by simp [columns])
  exact read_then fields <| read_then (orElse_fields_of_some rfl (uint64?_natural _)) <|
    read_then (orElse_fields_of_some rfl (each?_list isValue_writeUnsigned uint64?_natural _)) <|
    rfl

/-- What is written of the heartbeat section. -/
def Heartbeat.columns (s : Heartbeat) : Columns :=
  [("interval_secs", some (writeUnsigned s.intervalSecs)),
    ("stale_after_secs", some (writeUnsigned s.staleAfterSecs))]

theorem Heartbeat.areValues_columns (s : Heartbeat) : s.columns.AreValues := by
  simp [columns, areValues_cons, areValues_nil, isValue_writeUnsigned]

theorem Heartbeat.isValue_write (s : Heartbeat) : IsValue s.write :=
  isValue_record s.areValues_columns.present

/-- The heartbeat section is read back. -/
theorem Heartbeat.read?_write (s : Heartbeat) : read? (s.write.map some) = some s := by
  have fields := fields?_record s.areValues_columns (by simp [columns])
  exact read_then fields <| read_then (orElse_fields_of_some rfl (uint64?_natural _)) <|
    read_then (orElse_fields_of_some rfl (uint64?_natural _)) <| rfl

/-! ## Settings -/

/-- What is written of settings. -/
def columns (s : Settings) : Columns :=
  [("tls", some s.security.write), ("reconnect", some s.reconnect.write),
    ("heartbeat", some s.heartbeat.write), ("max_info_entries", some (writeUnsigned s.maxInfoEntries)),
    ("request_deleted_orders", some (writeBool s.requestDeletedOrders))]

theorem write_eq (s : Settings) : s.write = record s.columns.present := rfl

theorem areValues_columns (s : Settings) : s.columns.AreValues := by
  simp [columns, areValues_cons, areValues_nil, isValue_writeUnsigned, isValue_bool,
    Security.isValue_write, Reconnect.isValue_write, Heartbeat.isValue_write]

/-- Settings are read back from their text. -/
theorem decode?_write (s : Settings) : decode? (utf8 s.write) = some s := by
  rw [decode?, write_eq]
  exact decode_then s.areValues_columns (by simp [columns]) <|
    read_then (orElse_fields_of_some rfl s.security.read?_write) <|
    read_then (orElse_fields_of_some rfl s.reconnect.read?_write) <|
    read_then (orElse_fields_of_some rfl s.heartbeat.read?_write) <|
    read_then (orElse_fields_of_some rfl (uint64?_natural _)) <|
    read_then (orElse_fields_of_some rfl (truth?_bool _)) <| rfl

end MarketStream.Settings
