import MarketStream.Proofs.Cache.Belonging

/-!
# Which orders share a snapshot

Orders are filed under their account and their number with a colon between. Both are free texts, so
two orders are filed as one if the account of one goes on, after a colon, where the account of the
other ends, and its number is shorter by what the account is longer. No other two orders are.

* `OrderName` — the account and the number of an order; `OrderName.Overlaps` — how names clash;
* `OrderName.text_eq_iff` — names that are filed as one are the same, or they overlap;
* `Cache.isSome_find?_order` — whose fields the snapshot of an order has;
* `Cache.orders_apart_unless_overlapping` — what is cached and what is passed on of orders;
* `Cache.overlapping_orders_merged` — two orders that overlap.
-/

namespace MarketStream

/-! ## Names of orders -/

/-- The account and the number of an order, as texts. -/
structure OrderName where
  /-- The account. -/
  account : String
  /-- The number. -/
  number : String
deriving DecidableEq

namespace OrderName

/-- The text that an order is filed under. -/
def text (n : OrderName) : String := n.account ++ ":" ++ n.number

/-- The name in the fields of an order, if both are there. -/
def of? (u : Json.Members) : Option OrderName :=
  match held? u "accno", held? u "order_id" with
  | some account, some number => some ⟨account, number⟩
  | _, _ => none

theorem map_text_of? (u : Json.Members) : (of? u).map text = orderText? u := by
  rw [of?, orderText?]
  cases held? u "accno" <;> cases held? u "order_id" <;> rfl

/-- The account of the second goes on, after a colon, with what the number of the first starts with
before a colon. -/
def Overlaps (m n : OrderName) : Prop :=
  ∃ part, n.account = m.account ++ ":" ++ part ∧ m.number = part ++ ":" ++ n.number

theorem Overlaps.text_eq {m n : OrderName} (h : m.Overlaps n) : m.text = n.text := by
  obtain ⟨part, account, number⟩ := h
  rw [text, text, account, number]
  simp only [String.append_assoc]

/-- Two texts of accounts and numbers are cut at colons, and the one cut later has a part between. -/
theorem overlaps_of_append {m n : OrderName} {between : List Char}
    (account : n.account.toList = m.account.toList ++ between)
    (number : ':' :: m.number.toList = between ++ ':' :: n.number.toList) :
    m = n ∨ m.Overlaps n := by
  cases between with
  | nil =>
    obtain ⟨-, numbers⟩ := List.cons.inj number
    rw [List.append_nil] at account
    left
    cases m
    cases n
    simp only [mk.injEq]
    exact ⟨(String.toList_inj.mp account).symm, String.toList_inj.mp numbers⟩
  | cons colon part =>
    obtain ⟨rfl, numbers⟩ := List.cons.inj number
    refine .inr ⟨String.ofList part, String.toList_inj.mp ?_, String.toList_inj.mp ?_⟩
    · simpa using account
    · simpa using numbers

/-- Names that are filed as one are the same, or they overlap. -/
theorem text_eq_iff {m n : OrderName} : m.text = n.text ↔ m = n ∨ m.Overlaps n ∨ n.Overlaps m := by
  constructor
  · intro same
    have lists : m.account.toList ++ ':' :: m.number.toList
        = n.account.toList ++ ':' :: n.number.toList := by
      simpa [text] using congrArg String.toList same
    rcases List.append_eq_append_iff.mp lists with ⟨part, account, number⟩ | ⟨part, account, number⟩
    · exact (overlaps_of_append account number).imp_right .inl
    · rcases overlaps_of_append account number with same | overlap
      · exact .inl same.symm
      · exact .inr (.inr overlap)
  · rintro (rfl | overlap | overlap)
    · rfl
    · exact overlap.text_eq
    · exact overlap.text_eq.symm

/-- Only an account with a colon overlaps with another. -/
theorem Overlaps.colon_mem {m n : OrderName} (h : m.Overlaps n) : ':' ∈ n.account.toList := by
  obtain ⟨part, account, -⟩ := h
  simp [account]

end OrderName

/-! ## Whose fields a snapshot has -/

namespace Cache

namespace Filing

/-- The order that a frame updates, with the payload. -/
def orderUpdate? : Filing → Option (OrderName × Json.Members)
  | .stream _ => none
  | .order f => f.members?.bind fun u => (OrderName.of? u).map fun n => (n, u)

theorem orderWrite?_eq (x : Filing) :
    x.orderWrite? = x.orderUpdate?.map fun w => (w.1.text, w.2) := by
  cases x with
  | stream f => rfl
  | order f =>
    rw [orderWrite?, orderUpdate?]
    cases f.members? with
    | none => rfl
    | some u =>
      rw [Option.bind_some, Option.bind_some, ← OrderName.map_text_of?, Option.map_map,
        Option.map_map]
      rfl

end Filing

/-- The updates of orders in a run, oldest first. -/
def orderUpdates (filings : List Filing) : List (OrderName × Json.Members) :=
  filings.filterMap Filing.orderUpdate?

theorem filed_orders (filings : List Filing) :
    (filed filings).orders
      = (filings.filterMap Filing.orderWrite?).foldl (fun filed w => Filed.put w.1 w.2 filed) [] := by
  induction filings using List.reverseRecOn with
  | nil => rfl
  | append_singleton before x ih =>
    have last : filed (before ++ [x]) = (filed before).file x := List.foldl_concat ..
    rw [last, file_eq, List.filterMap_append, List.foldl_append, ← ih]
    cases write : x.orderWrite? with
    | none => simp [write, Filed.write]
    | some w => simp [write, Filed.write]

theorem mem_writesTo_iff {n : OrderName} {u : Json.Members} {filings : List Filing} :
    u ∈ Filed.writesTo n.text (filings.filterMap Filing.orderWrite?) ↔
      ∃ m, (m, u) ∈ orderUpdates filings ∧ m.text = n.text := by
  have writes : filings.filterMap Filing.orderWrite?
      = (orderUpdates filings).map fun w => (w.1.text, w.2) := by
    rw [orderUpdates, List.map_filterMap]
    exact List.filterMap_congr fun x _ => x.orderWrite?_eq
  rw [Filed.writesTo, writes]
  simp

/-- The snapshot of an order has the fields of the updates that are filed as one with it. -/
theorem isSome_find?_order {filings : List Filing} {n : OrderName} {s : Snapshot}
    (cached : Filed.find? n.text (filed filings).orders = some s) (name : String) :
    (Json.Members.find? name s).isSome ↔
      ∃ m u, (m, u) ∈ orderUpdates filings ∧ m.text = n.text ∧
        (Json.Members.find? name u).isSome := by
  have last := Filed.lastWrites_foldl_put (filings.filterMap Filing.orderWrite?) (by
    rintro ⟨key, u⟩ write
    obtain ⟨x, -, written⟩ := List.mem_filterMap.mp write
    exact (x.eq_of_orderWrite? written).1) n.text
  rw [filed_orders] at cached
  rw [last.find?_eq s cached name, List.findSome?_isSome_iff]
  constructor
  · rintro ⟨u, mem, there⟩
    obtain ⟨m, updated, same⟩ := mem_writesTo_iff.mp (List.mem_reverse.mp mem)
    exact ⟨m, u, updated, same, there⟩
  · rintro ⟨m, u, updated, same, there⟩
    exact ⟨u, List.mem_reverse.mpr (mem_writesTo_iff.mpr ⟨m, updated, same⟩), there⟩

/-- What is passed on of an order shows the snapshot that is cached from then on: as it came if that
is its own payload, and else as the text of the snapshot. -/
theorem mergeOrder_of_named {c : Cache} {f : Frame} {u : Json.Members} {n : OrderName}
    (read : f.members? = some u) (named : OrderName.of? u = some n) :
    ∃ s out, c.mergeOrder f = .ok (c.file (.order f), out) ∧
      Filed.find? n.text (c.file (.order f)).orders = some s ∧
      (out = f ∧ s = u ∨ out = (Frame.ofValue f.kindName (.object s)).withSeq f.seq) := by
  have key : orderKey u = .ok n.text := by
    rw [orderKey_eq_ok, ← OrderName.map_text_of?, named, Option.map_some]
  have merged : c.mergeOrder f = .ok ({ c with orders := Filed.put n.text u c.orders },
      passOn f (Filed.find? n.text c.orders) u) := by
    simp only [mergeOrder, read, key]
  have after : c.file (.order f) = { c with orders := Filed.put n.text u c.orders } := by
    rw [file, merged]
    rfl
  rw [after, merged]
  refine ⟨((Filed.find? n.text c.orders).map (·.update u)).getD u, _, rfl, ?_, ?_⟩
  · rw [Filed.find?_put, if_pos rfl]
  · cases Filed.find? n.text c.orders with
    | none => exact .inl ⟨rfl, rfl⟩
    | some s => exact .inr rfl

/-- **Orders are kept apart, unless their names overlap.** After any run of merges, the snapshot of an
order has exactly the fields that updates of this order brought, and those that updates of orders
brought whose names overlap with its name. What is passed on of an order is this snapshot. Where no
account has a colon in it no names overlap, and every order has its own fields only. -/
theorem orders_apart_unless_overlapping (filings : List Filing) :
    (∀ n s, Filed.find? n.text (filed filings).orders = some s → ∀ name,
      (Json.Members.find? name s).isSome ↔
        ∃ m u, (m, u) ∈ orderUpdates filings ∧ (m = n ∨ m.Overlaps n ∨ n.Overlaps m) ∧
          (Json.Members.find? name u).isSome) ∧
    (∀ f u n, f.members? = some u → OrderName.of? u = some n →
      ∃ s out, (filed filings).mergeOrder f = .ok (filed (filings ++ [.order f]), out) ∧
        Filed.find? n.text (filed (filings ++ [.order f])).orders = some s ∧
        (out = f ∧ s = u ∨ out = (Frame.ofValue f.kindName (.object s)).withSeq f.seq)) ∧
    ((∀ m u, (m, u) ∈ orderUpdates filings → ':' ∉ m.account.toList) →
      ∀ n s, ':' ∉ n.account.toList → Filed.find? n.text (filed filings).orders = some s → ∀ name,
        (Json.Members.find? name s).isSome ↔
          ∃ u, (n, u) ∈ orderUpdates filings ∧ (Json.Members.find? name u).isSome) := by
  refine ⟨?_, ?_, ?_⟩
  · intro n s cached name
    simp only [isSome_find?_order cached, OrderName.text_eq_iff]
  · intro f u n read named
    have last : filed (filings ++ [.order f]) = (filed filings).file (.order f) :=
      List.foldl_concat ..
    rw [last]
    exact mergeOrder_of_named read named
  · intro plain n s own cached name
    rw [isSome_find?_order cached]
    constructor
    · rintro ⟨m, u, updated, same, there⟩
      rcases OrderName.text_eq_iff.mp same with rfl | overlap | overlap
      · exact ⟨u, updated, there⟩
      · exact absurd overlap.colon_mem own
      · exact absurd overlap.colon_mem (plain m u updated)
    · rintro ⟨u, updated, there⟩
      exact ⟨n, u, updated, rfl, there⟩

/-- An update of an order, as a sample. -/
def orderFrame (account number field : String) : Frame :=
  ⟨"order", "\x7b\"accno\":\"" ++ account ++ "\",\"order_id\":\"" ++ number ++ "\",\"" ++ field
    ++ "\":1\x7d", 0⟩

/-- Two orders that differ in account and number: what is passed on of the second has a field that
only the first one brought. -/
theorem overlapping_orders_merged :
    let first := orderFrame "1:2" "3" "volume"
    let second := orderFrame "1" "2:3" "traded"
    first.members?.bind OrderName.of? = some ⟨"1:2", "3"⟩ ∧
      second.members?.bind OrderName.of? = some ⟨"1", "2:3"⟩ ∧
      second.members?.bind (Json.Members.find? "volume") = none ∧
      (((filed [.order first]).mergeOrder second).toOption.bind fun merged =>
        merged.2.members?.bind (Json.Members.find? "volume")) = some (.ofInt64 1) := by
  refine ⟨?_, ?_, ?_, ?_⟩ <;> decide +kernel

end Cache

end MarketStream
