import Mathlib.Data.List.Induction
import MarketStream.Aggregator.Status
import MarketStream.Proofs.Json.Members

/-!
# What the log of an aggregator shows

Callers set entries in the log, and each failure of a channel is recorded in it under a key that is
made of the time and the channel. The log keeps the entries of callers for good, and the errors
first in, first out up to a limit. It does so with one table for both and a queue of keys beside it,
and the two stay in step, also when errors of the same time share a key.

* `Remark`, `Aggregator.remark` — what goes into the log;
* `ErrorLog`, `ErrorLog.enter` — errors first in, first out;
* `lastNote?`, `ErrorLog.after`, `errorLog` — what callers and channels have left behind;
* `InfoLog.Shows`, `Shows.trim`, `Shows.record` — a log shows what they left behind;
* `Aggregator.status_shows_remarks` — what a status report tells after any run of remarks.
-/

namespace MarketStream

/-- What goes into the log of an aggregator. -/
inductive Remark where
  /-- A caller sets an entry. -/
  | note (key : String) (value : Json.Value)
  /-- A channel fails. -/
  | error (now : Moment) (channel : Channel) (fault : Fault)

/-- An aggregator after a remark. -/
def Aggregator.remark (a : Aggregator) : Remark → Aggregator
  | .note key value => a.note key value
  | .error now channel fault => a.onError now channel fault

/-! ## Errors first in, first out -/

/-- Errors with their keys, oldest first. -/
abbrev ErrorLog := List (String × String)

/-- The newest of some items, up to a limit. -/
def newest {α : Type} (limit : Nat) (items : List α) : List α := items.drop (items.length - limit)

namespace ErrorLog

/-- One more error. If its key is in the log only the text is replaced; else it comes last and
pushes out the oldest beyond the limit. -/
def enter (limit : Nat) (key text : String) (log : ErrorLog) : ErrorLog :=
  if key ∈ log.map Prod.fst then log.map fun e => (e.1, if e.1 = key then text else e.2)
  else newest limit (log ++ [(key, text)])

end ErrorLog

/-- What a remark sets under a key. -/
def Remark.valueAt? (key : String) : Remark → Option Json.Value
  | .note k value => if k = key then some value else none
  | .error .. => none

/-- What a caller last set under a key. -/
def lastNote? (key : String) (remarks : List Remark) : Option Json.Value :=
  remarks.reverse.findSome? (Remark.valueAt? key)

/-- The errors that a log keeps after a remark. -/
def ErrorLog.after (limit : Nat) (log : ErrorLog) : Remark → ErrorLog
  | .note .. => log
  | .error now channel fault => log.enter limit (Aggregator.errorKey now channel) fault.message

/-- The errors that a log keeps. -/
def errorLog (limit : Nat) (remarks : List Remark) : ErrorLog :=
  remarks.foldl (ErrorLog.after limit) []

/-- No caller sets an entry under the key of an error. -/
def NotesApart (remarks : List Remark) : Prop :=
  ∀ key value now channel fault, .note key value ∈ remarks → .error now channel fault ∈ remarks →
    key ≠ Aggregator.errorKey now channel

theorem lastNote?_concat (key : String) (before : List Remark) (r : Remark) :
    lastNote? key (before ++ [r]) = (r.valueAt? key).or (lastNote? key before) := by
  rw [lastNote?, List.reverse_append, List.reverse_singleton, List.singleton_append,
    List.findSome?_cons]
  cases r.valueAt? key <;> rfl

theorem mem_of_lastNote? {key : String} {value : Json.Value} {remarks : List Remark}
    (h : lastNote? key remarks = some value) : .note key value ∈ remarks := by
  obtain ⟨r, mem, eq⟩ := List.exists_of_findSome?_eq_some h
  cases r with
  | note k v =>
    obtain ⟨rfl, same⟩ := Option.ite_none_right_eq_some.mp eq
    cases same
    exact List.mem_reverse.mp mem
  | error => cases eq

theorem errorLog_concat (limit : Nat) (before : List Remark) (r : Remark) :
    errorLog limit (before ++ [r]) = (errorLog limit before).after limit r := List.foldl_concat ..

namespace ErrorLog

variable {limit : Nat} {key text : String} {log : ErrorLog}

theorem mem_keys_of_enter {k : String} (h : k ∈ (log.enter limit key text).map Prod.fst) :
    k = key ∨ k ∈ log.map Prod.fst := by
  rw [enter] at h
  split at h
  · rw [List.map_map] at h
    exact .inr h
  · obtain ⟨e, he, rfl⟩ := List.mem_map.mp h
    rcases List.mem_append.mp (List.mem_of_mem_drop he) with old | last
    · exact .inr (List.mem_map_of_mem old)
    · exact .inl (List.mem_singleton.mp last ▸ rfl)

theorem length_enter_le (le : log.length ≤ limit) : (log.enter limit key text).length ≤ limit := by
  rw [enter]
  split
  · rw [List.length_map]
    exact le
  · rw [newest, List.length_drop]
    omega

end ErrorLog

/-- The keys of the log are those of errors. -/
theorem error_of_mem_errorLog {limit : Nat} {remarks : List Remark} {k : String}
    (h : k ∈ (errorLog limit remarks).map Prod.fst) :
    ∃ now channel fault, .error now channel fault ∈ remarks ∧
      k = Aggregator.errorKey now channel := by
  induction remarks using List.reverseRecOn with
  | nil => cases h
  | append_singleton before r ih =>
    have earlier (h : k ∈ (errorLog limit before).map Prod.fst) :
        ∃ now channel fault, .error now channel fault ∈ before ++ [r] ∧
          k = Aggregator.errorKey now channel := by
      obtain ⟨now, channel, fault, mem, eq⟩ := ih h
      exact ⟨now, channel, fault, List.mem_append_left [r] mem, eq⟩
    rw [errorLog_concat] at h
    cases r with
    | note => exact earlier h
    | error now channel fault =>
      rcases ErrorLog.mem_keys_of_enter h with rfl | old
      · exact ⟨now, channel, fault, by simp, rfl⟩
      · exact earlier old

/-! ## Logs that show what was left behind -/

namespace InfoLog

theorem find?_foldl_without (key : String) (keys : List String) (ms : Json.Members) :
    Json.Members.find? key (keys.foldl (fun ms key => without key ms) ms)
      = if key ∈ keys then none else Json.Members.find? key ms := by
  induction keys generalizing ms with
  | nil => rfl
  | cons k rest ih =>
    have first : Json.Members.find? key (without k ms)
        = if key = k then none else Json.Members.find? key ms := lookup_filter_key_ne key k ms
    rw [List.foldl_cons, ih, first]
    by_cases same : key = k
    · simp [same]
    · simp [same]

theorem ascending_foldl_without {ms : Json.Members} (h : ms.Ascending) (keys : List String) :
    Json.Members.Ascending (keys.foldl (fun ms key => without key ms) ms) := by
  induction keys generalizing ms with
  | nil => exact h
  | cons k rest ih => exact ih (List.Pairwise.filter _ h)

/-- The log shows what callers last set under their keys, and some errors, whose keys are not those
of callers. -/
structure Shows (notes : String → Option Json.Value) (log : ErrorLog) (l : InfoLog) : Prop where
  /-- Each key has one entry. -/
  ascending : l.entries.Ascending
  /-- The queue has the keys of the errors. -/
  keys : l.errorKeys = log.map Prod.fst
  /-- Each error has a key of its own. -/
  once : (log.map Prod.fst).Nodup
  /-- It is no key of a caller. -/
  apart : ∀ key ∈ log.map Prod.fst, notes key = none
  /-- These are the entries. -/
  find?_eq : ∀ key, Json.Members.find? key l.entries
    = (notes key).or ((log.lookup key).map Json.Value.string)

namespace Shows

variable {notes : String → Option Json.Value} {log : ErrorLog} {l : InfoLog}

/-- A caller sets an entry. -/
theorem set (h : l.Shows notes log) {k : String} (other : k ∉ log.map Prod.fst) (v : Json.Value) :
    (l.set k v).Shows (fun key => (if k = key then some v else none).or (notes key)) log := by
  refine ⟨h.ascending.insert k v, h.keys, h.once, fun key hk => ?_, fun key => ?_⟩
  · rw [if_neg fun same : k = key => other (same ▸ hk)]
    exact h.apart key hk
  · rw [InfoLog.set, Json.Members.find?_insert, h.find?_eq]
    by_cases same : key = k
    · rw [if_pos same, if_pos same.symm]
      rfl
    · rw [if_neg same, if_neg (Ne.symm same)]
      rfl

/-- Dropping errors beyond a limit leaves the newest. -/
theorem trim (h : l.Shows notes log) (limit : Nat) :
    (l.trim limit).Shows notes (newest limit log) := by
  let excess := log.length - limit
  have keys_length : l.errorKeys.length = log.length := by rw [h.keys, List.length_map]
  have parts : log.take excess ++ log.drop excess = log := List.take_append_drop ..
  have once := h.once
  rw [← parts, List.map_append, List.nodup_append] at once
  obtain ⟨-, once, disjoint⟩ := once
  refine ⟨ascending_foldl_without h.ascending _, ?_, once, fun key hk => ?_, fun key => ?_⟩
  · rw [InfoLog.trim, keys_length, h.keys, newest, List.map_drop]
  · exact h.apart key (((List.drop_sublist ..).map Prod.fst).mem hk)
  · rw [InfoLog.trim, keys_length, h.keys]
    dsimp only
    rw [find?_foldl_without, ← List.map_take, h.find?_eq]
    by_cases dropped : key ∈ (log.take excess).map Prod.fst
    · have gone : (newest limit log).lookup key = none :=
        lookup_eq_none_of_not_mem fun kept => disjoint key dropped key kept rfl
      have mine : notes key = none :=
        h.apart key (((List.take_sublist ..).map Prod.fst).mem dropped)
      rw [if_pos dropped, gone, mine]
      rfl
    · have kept : log.lookup key = (newest limit log).lookup key := by
        rw [← parts, List.lookup_append, lookup_eq_none_of_not_mem dropped, parts]
        rfl
      rw [if_neg dropped, kept]

/-- An error gets its text, whether its key is new or not. -/
theorem insert (h : l.Shows notes log) {key text : String} (own : notes key = none)
    {log' : ErrorLog} (once : (log'.map Prod.fst).Nodup)
    (mem : ∀ k ∈ log'.map Prod.fst, k = key ∨ k ∈ log.map Prod.fst)
    (lookup : ∀ k, log'.lookup k = if k = key then some text else log.lookup k) :
    (⟨l.entries.insert key (.string text), log'.map Prod.fst⟩ : InfoLog).Shows notes log' := by
  refine ⟨h.ascending.insert _ _, rfl, once, fun k hk => ?_, fun k => ?_⟩
  · rcases mem k hk with rfl | old
    · exact own
    · exact h.apart k old
  · dsimp only
    rw [Json.Members.find?_insert, lookup, h.find?_eq]
    by_cases same : k = key
    · rw [if_pos same, if_pos same, same, own]
      rfl
    · rw [if_neg same, if_neg same]

/-- An error is recorded. -/
theorem record (h : l.Shows notes log) {limit : Nat} (le : log.length ≤ limit) {key : String}
    (own : notes key = none) (text : String) :
    (l.record limit key text).Shows notes (log.enter limit key text) := by
  have isNew : (Json.Members.find? key l.entries).isNone = (log.lookup key).isNone := by
    rw [h.find?_eq, own, Option.none_or, Option.isNone_map]
  rw [InfoLog.record, isNew, ErrorLog.enter, h.keys]
  by_cases there : key ∈ log.map Prod.fst
  · have found := isSome_lookup_iff.mpr there
    let replaced : ErrorLog := log.map fun e => (e.1, if e.1 = key then text else e.2)
    have keys : replaced.map Prod.fst = log.map Prod.fst := List.map_map
    have lookup (k : String) :
        replaced.lookup k = if k = key then some text else log.lookup k := by
      rw [show replaced.lookup k = _ from
        lookup_map_value (fun k old => if k = key then text else old) k log]
      by_cases same : k = key
      · obtain ⟨old, eq⟩ := Option.isSome_iff_exists.mp found
        rw [if_pos same, same, eq]
        simp
      · simp [same]
    have inserted := h.insert own (keys ▸ h.once) (fun k hk => .inr (keys ▸ hk)) lookup
    -- The queue is as long as it was, so nothing is dropped.
    have all : newest limit replaced = replaced := by
      rw [newest, List.length_map, Nat.sub_eq_zero_of_le le, List.drop_zero]
    have trimmed := inserted.trim limit
    rw [all, keys] at trimmed
    rw [if_pos there, if_neg (by simp [Option.isSome_iff_ne_none.mp found])]
    exact trimmed
  · have absent := lookup_eq_none_of_not_mem there
    have keys : (log ++ [(key, text)]).map Prod.fst = log.map Prod.fst ++ [key] := List.map_append
    have lookup (k : String) :
        (log ++ [(key, text)]).lookup k = if k = key then some text else log.lookup k := by
      rw [List.lookup_append, lookup_cons_ite]
      by_cases same : k = key
      · rw [if_pos same, if_pos same, same, absent, Option.none_or]
      · rw [if_neg same, if_neg same, List.lookup_nil, Option.or_none]
    have inserted := h.insert own (nodup_map_concat h.once there)
      (by simp [or_comm]) lookup
    rw [if_neg there, if_pos (by simp [absent]), ← keys]
    exact inserted.trim limit

end Shows

end InfoLog

/-! ## Runs -/

namespace Aggregator

/-- An aggregator that has seen nothing, after remarks. -/
def afterRemarks (settings : Settings) (ids : Nat → String) (remarks : List Remark) : Aggregator :=
  remarks.foldl remark (fresh settings ids)

theorem settings_afterRemarks (settings : Settings) (ids : Nat → String) (remarks : List Remark) :
    (afterRemarks settings ids remarks).settings = settings := by
  let Keeps (a : Aggregator) : Prop := a.settings = settings
  have start : Keeps (fresh settings ids) := rfl
  refine List.foldlRecOn remarks remark (motive := Keeps) start ?_
  intro a h r _
  cases r with
  | note => exact h
  | error => exact h

/-- After any run of remarks the log shows what they have left behind. -/
theorem shows_afterRemarks (settings : Settings) (ids : Nat → String) {remarks : List Remark}
    (apart : NotesApart remarks) :
    let log := errorLog settings.maxInfoEntries.toNat remarks
    (afterRemarks settings ids remarks).info.Shows (lastNote? · remarks) log ∧
      log.length ≤ settings.maxInfoEntries.toNat := by
  induction remarks using List.reverseRecOn with
  | nil =>
    have nothing : ∀ key ∈ ([] : List String), lastNote? key [] = none := fun _ _ => rfl
    exact ⟨⟨Json.Members.ascending_nil, rfl, .nil, nothing, fun _ => rfl⟩, Nat.zero_le _⟩
  | append_singleton before r ih =>
    have apart_before : NotesApart before := fun key value now channel fault note error =>
      apart key value now channel fault (List.mem_append_left _ note) (List.mem_append_left _ error)
    obtain ⟨shows, le⟩ := ih apart_before
    have last : afterRemarks settings ids (before ++ [r])
        = (afterRemarks settings ids before).remark r := List.foldl_concat ..
    rw [last, errorLog_concat, funext fun key => lastNote?_concat key before r]
    cases r with
    | note key value =>
      have other : key ∉ (errorLog settings.maxInfoEntries.toNat before).map Prod.fst := by
        intro mem
        obtain ⟨now, channel, fault, error, eq⟩ := error_of_mem_errorLog mem
        exact apart key value now channel fault (by simp) (List.mem_append_left _ error) eq
      exact ⟨shows.set other value, le⟩
    | error now channel fault =>
      have own : lastNote? (errorKey now channel) before = none := by
        cases set : lastNote? (errorKey now channel) before with
        | none => rfl
        | some value =>
          have note := List.mem_append_left [Remark.error now channel fault] (mem_of_lastNote? set)
          exact absurd rfl (apart _ value now channel fault note (by simp))
      refine ⟨?_, ErrorLog.length_enter_le le⟩
      have recorded := shows.record le own fault.message
      rw [remark, onError, settings_afterRemarks]
      exact recorded

/-- A status report shows the entries of the log. -/
theorem find?_info_status (a : Aggregator) :
    ∃ report, a.status = .object report ∧
      Json.Members.find? "info" report = some (.object a.info.entries) := by
  refine ⟨_, rfl, ?_⟩
  simp [Json.Members.ofList, Json.Members.find?_insert]

/-- **The log stays bounded without losing the entries of callers.** Whatever callers set and
channels fail with, and whatever the limit for errors, so long as no caller sets an entry under the
key of an error: a status report shows each key once, under those that callers have set the values
they have set last, and besides them exactly the errors of a log that is first in, first out. This
log has at most as many errors as the limit says, each with a key of its own that no caller has
set. -/
theorem status_shows_remarks (settings : Settings) (ids : Nat → String) {remarks : List Remark}
    (apart : NotesApart remarks) :
    let log := errorLog settings.maxInfoEntries.toNat remarks
    (∃ report entries, (afterRemarks settings ids remarks).status = .object report ∧
      Json.Members.find? "info" report = some (.object entries) ∧
      Json.Members.Ascending entries ∧
      ∀ key, Json.Members.find? key entries
        = (lastNote? key remarks).or ((log.lookup key).map Json.Value.string)) ∧
    log.length ≤ settings.maxInfoEntries.toNat ∧
    (log.map Prod.fst).Nodup ∧
    ∀ key ∈ log.map Prod.fst, lastNote? key remarks = none := by
  intro log
  obtain ⟨shows, le⟩ := shows_afterRemarks settings ids apart
  obtain ⟨report, status, info⟩ := find?_info_status (afterRemarks settings ids remarks)
  exact ⟨⟨report, _, status, info, shows.ascending, shows.find?_eq⟩, le, shows.once, shows.apart⟩

/-- Two channels fail at a time, one of them twice, and again later, while a caller sets an entry
twice. -/
def sampleRemarks : List Remark :=
  [.note "version" (.string "1.0"), .error ⟨0, "09:30"⟩ .private .streamClosed,
    .error ⟨0, "09:30"⟩ .public .streamClosed, .error ⟨0, "09:30"⟩ .private .closed,
    .note "version" (.string "1.1"), .error ⟨5, "09:31"⟩ .private .streamClosed]

/-- With room for two errors, the oldest is gone: it is the one that only got another text. -/
theorem status_shows_remarks_sample :
    let settings := { Settings.standard with maxInfoEntries := 2 }
    NotesApart sampleRemarks ∧
    errorLog 2 sampleRemarks = [("09:30 public", Fault.streamClosed.message),
      ("09:31 private", Fault.streamClosed.message)] ∧
    lastNote? "version" sampleRemarks = some (.string "1.1") ∧
    ∃ report entries, (afterRemarks settings (fun _ => "") sampleRemarks).status = .object report ∧
      Json.Members.find? "info" report = some (.object entries) ∧
      Json.Members.find? "09:30 private" entries = none ∧
      Json.Members.find? "version" entries = some (.string "1.1") := by
  intro settings
  have apart : NotesApart sampleRemarks := by
    intro key value now channel fault note error
    have noted : key = "version" := by
      simp only [sampleRemarks, List.mem_cons, reduceCtorEq, Remark.note.injEq, List.not_mem_nil,
        or_false, false_or] at note
      rcases note with ⟨rfl, -⟩ | ⟨rfl, -⟩ <;> rfl
    simp only [sampleRemarks, List.mem_cons, reduceCtorEq, Remark.error.injEq, List.not_mem_nil,
      or_false, false_or] at error
    subst noted
    rcases error with ⟨rfl, rfl, -⟩ | ⟨rfl, rfl, -⟩ | ⟨rfl, rfl, -⟩ | ⟨rfl, rfl, -⟩ <;> decide
  have errors : errorLog 2 sampleRemarks = [("09:30 public", Fault.streamClosed.message),
      ("09:31 private", Fault.streamClosed.message)] := by decide
  have note : lastNote? "version" sampleRemarks = some (.string "1.1") := rfl
  obtain ⟨⟨report, entries, status, info, -, find?_eq⟩, -⟩ :=
    status_shows_remarks settings (fun _ => "") apart
  have limit : settings.maxInfoEntries.toNat = 2 := rfl
  rw [limit, errors] at find?_eq
  refine ⟨apart, errors, note, report, entries, status, info, ?_, ?_⟩
  · rw [find?_eq]
    rfl
  · rw [find?_eq, note]
    rfl

end Aggregator

end MarketStream
