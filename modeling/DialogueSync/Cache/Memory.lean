import DialogueSync.Cache.Basic

/-!
# The cache in memory

Records under the pair of conversation and message id, with an optional limit on their number. A write
that would take the number of records past the limit is refused as a whole.
-/

namespace DialogueSync.Cache

/-- What a record is stored under. -/
structure Key where
  /-- The conversation. -/
  conversation : String
  /-- The id of the message. -/
  id : String
deriving DecidableEq, Repr

namespace Key

/-- By conversation, then by message id. -/
instance : Ord Key where
  compare := compareLex (compareOn conversation) (compareOn id)

instance : Std.TransOrd Key :=
  inferInstanceAs (Std.TransCmp (compareLex (compareOn conversation) (compareOn id)))

/-- Only equal keys compare as equal. -/
instance : Std.LawfulEqOrd Key where
  eq_of_compare {a b} h := by
    have h' : (compare a.conversation b.conversation).then (compare a.id b.id) = .eq := h
    simp only [Ordering.then_eq_eq, Std.LawfulEqOrd.compare_eq_iff_eq] at h'
    cases a
    cases b
    simp_all

end Key

/-- What a record is stored under. -/
def Record.key (r : Record) : Key :=
  ⟨r.conversation, r.id⟩

/-- A cache in memory. -/
structure Memory where
  /-- The records by conversation and message id. -/
  records : Std.ExtTreeMap Key Record := ∅
  /-- How many records there may be, if that is limited. -/
  quota : Option Nat := none
deriving DecidableEq

namespace Memory

/-- The number of records. -/
def total (m : Memory) : Nat :=
  m.records.size

/-- The records of a conversation in the order of the message ids. -/
def recordsOf (m : Memory) (conversation : String) : List Record :=
  (m.records.filter fun k _ => k.conversation = conversation).values

/-- The records with further ones stored among them; of two with one key the later one counts. -/
def insertAll (records : Std.ExtTreeMap Key Record) (batch : List Record) : Std.ExtTreeMap Key Record :=
  records.insertMany (batch.map fun r => (r.key, r))

/-- Stores records unless that would exceed the limit. -/
def put (m : Memory) (batch : List Record) : Except Failure Memory :=
  let records := insertAll m.records batch
  if m.quota.any (· < records.size) then .error .cacheFull else .ok { m with records := records }

/-- Drops the records of a conversation. -/
def drop (m : Memory) (conversation : String) : Memory :=
  { m with records := m.records.filter fun k _ => k.conversation ≠ conversation }

/-- Drops all records. -/
def clear (m : Memory) : Memory :=
  { m with records := ∅ }

/-- A cleared cache holds no record. -/
@[simp] theorem total_clear (m : Memory) : m.clear.total = 0 := by
  simp [clear, total]

/-- A write is accepted exactly if the records are within the limit afterwards. -/
theorem put_eq_ok_iff {m m' : Memory} {batch : List Record} :
    m.put batch = .ok m' ↔
      (∀ limit, m.quota = some limit → (insertAll m.records batch).size ≤ limit) ∧
        m' = { m with records := insertAll m.records batch } := by
  unfold put
  cases hq : m.quota with
  | none => simp [eq_comm]
  | some limit =>
    by_cases h : limit < (insertAll m.records batch).size
    · simp [h, Nat.not_le.mpr h]
    · simp [h, eq_comm, Nat.le_of_not_lt h]

/-- A write is refused for no other reason than the limit. -/
theorem eq_cacheFull_of_put {m : Memory} {batch : List Record} {e : Failure}
    (h : m.put batch = .error e) : e = .cacheFull := by
  unfold put at h
  simp only at h
  split at h <;> simp_all

end Memory

instance : Cache Memory where
  read conversation m := (.ok (m.recordsOf conversation), m)
  put batch m :=
    match m.put batch with
    | .ok m' => (.ok (), m')
    | .error e => (.error e, m)
  drop conversation m := (.ok (), m.drop conversation)
  clear m := (.ok (), m.clear)

end DialogueSync.Cache
