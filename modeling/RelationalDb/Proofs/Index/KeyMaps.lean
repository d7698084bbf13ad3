import Mathlib
import RelationalDb.Proofs.Index.Removals
import RelationalDb.Proofs.Query.Ranges

/-!
# Indices as maps

To its callers an index is a map from the keys of one type to lists of row ids, without
counters, entries or edges of scans.  Every sequence of calls on an empty index ends as it
does on the empty map, and leaves an index whose answers can be read off the map.
-/

namespace RelationalDb

def Direction.arrange {α : Type} : Direction → List α → List α
  | .ascending, l => l
  | .descending, l => l.reverse

theorem Direction.map_arrange {α β : Type} (f : α → β) (d : Direction) (l : List α) :
    (d.arrange l).map f = d.arrange (l.map f) := by
  cases d with
  | ascending => rfl
  | descending => exact List.map_reverse

theorem Direction.length_flatMap_arrange {α β : Type} (f : α → List β) (d : Direction)
    (l : List α) : ((d.arrange l).flatMap f).length = (l.map fun a => (f a).length).sum := by
  rw [List.length_flatMap]
  cases d with
  | ascending => rfl
  | descending => rw [arrange, List.map_reverse, List.sum_reverse]

/-!
## Ranges as sets of keys
-/

namespace KeyRange

variable {type : ColumnType} {k : Value} {r : KeyRange Value}

/-- A scan of the range comes upon the keys that the range contains: where it is not made at
all, no key lies between the ends. -/
theorem admits_iff_contains (hk : k.type? = some type)
    (hr : ∀ e ∈ r.endpoints, e.type? = some type) : r.Admits k ↔ r.contains k = true := by
  have ord := Value.orderedOn_type type
  cases r with
  | all => simp [Admits, contains, isEmpty, lower, upper, Edge.admitsFromBelow,
      Edge.admitsFromAbove]
  | only v =>
      rw [admits_only_iff, contains, Value.beq_iff_of_type hk (hr v List.mem_cons_self)]
  | above v exclusive => simp [Admits, contains, isEmpty, lower, upper, Edge.admitsFromAbove]
  | below v exclusive => simp [Admits, contains, isEmpty, lower, upper, Edge.admitsFromBelow]
  | between l u lowerExclusive upperExclusive =>
      have hl : l.type? = some type := hr l List.mem_cons_self
      have hu : u.type? = some type := hr u (List.mem_cons_of_mem _ List.mem_cons_self)
      simp only [Admits, contains, lower, upper, Bool.and_eq_true, and_iff_right_iff_imp]
      rintro ⟨hbelow, habove⟩
      have hlow : compare k l ≠ .lt := by
        cases lowerExclusive <;> cases h : compare k l <;>
          simp_all [Edge.ofKey, Edge.admitsFromBelow]
      have hhigh : compare k u ≠ .gt := by
        cases upperExclusive <;> cases h : compare k u <;>
          simp_all [Edge.ofKey, Edge.admitsFromAbove]
      have hgt : compare l u ≠ .gt := by
        have hinner := ((admits_between_iff hk hl hu).mpr ⟨hlow, hhigh⟩).1
        simpa [isEmpty] using hinner
      rw [isEmpty, Bool.or_eq_false_iff]
      refine ⟨by simpa using hgt, ?_⟩
      by_cases heq : compare l u = .eq
      · have hcongr : compare k l = compare k u := ord.congr_right hk hl hu heq
        cases lowerExclusive <;> cases upperExclusive <;> cases h : compare k u <;>
          simp_all [Edge.ofKey, Edge.admitsFromBelow, Edge.admitsFromAbove]
      · have hne : (l == u) = false := by
          rw [← Bool.not_eq_true, Value.beq_iff_of_type hl hu]
          exact heq
        simp [hne]

end KeyRange

namespace KeyIndex

variable {i : KeyIndex} {r : KeyRange Value}

theorem checkRange_eq_ok_iff :
    i.checkRange r = .ok () ↔ ∀ e ∈ r.endpoints, e.type? = some i.keyType := by
  rw [checkRange, Outcome.forM_eq_ok_iff]
  simp [checkKey]

theorem Sound.entriesIn_eq (h : i.Sound) (hr : ∀ e ∈ r.endpoints, e.type? = some i.keyType) :
    i.entriesIn r = i.entries.entries.filter fun e => r.contains e.1 := by
  have hadmits : ∀ e ∈ i.entries.entries, (r.contains e.1 = true ↔ r.Admits e.1) := fun e he =>
    (KeyRange.admits_iff_contains (h.ascending.kind e he) hr).symm
  unfold entriesIn scan
  cases hempty : r.isEmpty with
  | true =>
      rw [if_pos rfl, eq_comm, List.filter_eq_nil_iff]
      intro e he
      rw [hadmits e he]
      intro hcontains
      exact absurd hcontains.1 (by simp [hempty])
  | false =>
      rw [if_neg Bool.false_ne_true]
      apply List.filter_congr
      intro e he
      rw [Bool.eq_iff_iff, hadmits e he, Bool.and_eq_true]
      exact ⟨fun hedges => ⟨hempty, hedges⟩, fun hcontains => hcontains.2⟩

theorem entriesIn_all (i : KeyIndex) : i.entriesIn .all = i.entries.entries := by
  simp [entriesIn, scan, KeyRange.isEmpty, KeyRange.lower, KeyRange.upper, Edge.admitsFromBelow,
    Edge.admitsFromAbove]

theorem Counted.cost_eq (h : i.Counted) {wanted : Option (KeyRange Value)}
    (hcheck : i.checkRange (wanted.getD .all) = .ok ()) :
    i.cost wanted = ((i.entriesIn (wanted.getD .all)).map fun e => e.2.length).sum := by
  unfold cost
  split
  next =>
    rw [Option.getD_none, entriesIn_all]
    exact h
  next =>
    rw [Option.getD_some, entriesIn_all]
    exact h
  next =>
    rw [Option.getD_some] at hcheck ⊢
    rw [hcheck, List.sum_eq_foldl]

end KeyIndex

/-!
## Maps
-/

abbrev KeyMap := Value → List RowId

namespace KeyMap

def put (m : KeyMap) (key : Value) (ids : List RowId) : KeyMap :=
  fun k => if compare k key = .eq then ids else m k

theorem put_put (m : KeyMap) (key : Value) (ids ids' : List RowId) :
    (m.put key ids).put key ids' = m.put key ids' := by
  funext k
  unfold put
  split <;> rfl

/-- The keys that have ids, in ascending order and each of them once. -/
structure Lists (m : KeyMap) (type : ColumnType) (keys : List Value) : Prop where
  kind : ∀ k ∈ keys, k.type? = some type
  sorted : keys.Pairwise fun k k' => compare k k' = .lt
  mem_iff : ∀ k, k.type? = some type → (m k ≠ [] ↔ ∃ k' ∈ keys, compare k k' = .eq)

def idsIn (m : KeyMap) (keys : List Value) (wanted : Option (KeyRange Value))
    (direction : Direction) : List RowId :=
  (direction.arrange (keys.filter (wanted.getD .all).contains)).flatMap m

end KeyMap

namespace KeyIndex

variable {i i' : KeyIndex} {m : KeyMap} {key : Value} {id : RowId}

/-- The answers of an index, read off a map. -/
structure Represents (i : KeyIndex) (m : KeyMap) : Prop where
  get : ∀ k, k.isNull = true ∨ k.type? = some i.keyType → i.get k = m k
  nodup : ∀ k, k.type? = some i.keyType → (m k).Nodup
  single : i.unique = true → ∀ k, k.type? = some i.keyType → (m k).length ≤ 1
  listed : ∃ keys, m.Lists i.keyType keys ∧
    i.size = (keys.map fun k => (m k).length).sum ∧
    ∀ wanted direction limit skip,
      (∀ e ∈ (wanted.getD .all).endpoints, e.type? = some i.keyType) →
        i.range wanted direction limit skip =
          .ok (slice (m.idsIn keys wanted direction) limit skip)
  rejects : ∀ wanted direction limit skip,
    (∃ e ∈ (wanted.getD .all).endpoints, e.type? ≠ some i.keyType) →
      ∃ e ∈ (wanted.getD .all).endpoints, e.type? ≠ some i.keyType ∧
        i.range wanted direction limit skip = .error (.data (.keyType i.name i.keyType e))
  cost : ∀ wanted direction ids, i.range wanted direction none 0 = .ok ids →
    i.cost wanted = ids.length

/-- The index is sound, its rows are counted, and it finds what is in the map. -/
structure Follows (i : KeyIndex) (m : KeyMap) : Prop where
  sound : i.Sound
  counted : i.Counted
  get_null : m .null = []
  get : ∀ k, k.type? = some i.keyType → i.get k = m k

theorem Follows.get_entry (h : i.Follows m) {e : Value × List RowId}
    (he : e ∈ i.entries.entries) : m e.1 = e.2 := by
  have hkind := h.sound.ascending.kind e he
  rw [← h.get e.1 hkind, get_eq, SortedMap.lookup_of_mem (Value.orderedOn_type _)
    h.sound.ascending hkind he (Value.compare_self _)]
  rfl

theorem Follows.lists (h : i.Follows m) : m.Lists i.keyType i.entries.keys where
  kind := by
    intro k hk
    rcases List.mem_map.mp hk with ⟨e, he, rfl⟩
    exact h.sound.ascending.kind e he
  sorted := by
    rw [SortedMap.keys, List.pairwise_map]
    exact h.sound.ascending.sorted
  mem_iff := by
    intro k hk
    rw [← h.get k hk]
    constructor
    · intro hne
      rcases (get_eq_nil_or_mem i k).resolve_left hne with ⟨k', hmem, heq⟩
      exact ⟨k', List.mem_map_of_mem hmem, heq⟩
    · rintro ⟨k', hk', heq⟩
      rcases List.mem_map.mp hk' with ⟨e, he, rfl⟩
      have hkind := h.sound.ascending.kind e he
      rw [h.sound.get_congr hk hkind heq, h.get e.1 hkind, h.get_entry he]
      exact h.sound.nonempty e he

theorem Follows.flatMap_eq (h : i.Follows m) {es : List (Value × List RowId)}
    (hes : ∀ e ∈ es, e ∈ i.entries.entries) : es.flatMap (·.2) = (es.map (·.1)).flatMap m := by
  rw [List.flatMap_map]
  exact List.flatMap_congr fun e he => (h.get_entry (hes e he)).symm

theorem Follows.idsIn_eq (h : i.Follows m) {wanted : Option (KeyRange Value)}
    (hr : ∀ e ∈ (wanted.getD .all).endpoints, e.type? = some i.keyType) (direction : Direction) :
    (direction.arrange (i.entriesIn (wanted.getD .all))).flatMap (·.2) =
      m.idsIn i.entries.keys wanted direction := by
  rw [h.sound.entriesIn_eq hr, h.flatMap_eq, Direction.map_arrange, KeyMap.idsIn, SortedMap.keys,
    List.filter_map]
  · rfl
  · intro e he
    have hmem : e ∈ i.entries.entries.filter fun e => (wanted.getD .all).contains e.1 := by
      cases direction with
      | ascending => exact he
      | descending => exact List.mem_reverse.mp he
    exact List.mem_of_mem_filter hmem

theorem Follows.range_eq (h : i.Follows m) {wanted : Option (KeyRange Value)}
    (hr : ∀ e ∈ (wanted.getD .all).endpoints, e.type? = some i.keyType) (direction : Direction)
    (limit : Option Nat) (skip : Nat) :
    i.range wanted direction limit skip =
      .ok (slice (m.idsIn i.entries.keys wanted direction) limit skip) := by
  rw [← h.idsIn_eq hr, range, checkRange_eq_ok_iff.mpr hr, Outcome.ok_bind]
  cases direction <;> rfl

theorem checkRange_eq_error (hr : ∃ e ∈ r.endpoints, e.type? ≠ some i.keyType) :
    ∃ e ∈ r.endpoints, e.type? ≠ some i.keyType ∧
      i.checkRange r = .error (.data (.keyType i.name i.keyType e)) := by
  unfold checkRange
  generalize r.endpoints = ends at hr
  induction ends with
  | nil => simp at hr
  | cons e rest ih =>
      change ∃ e' ∈ e :: rest, _ ∧ (i.checkKey e >>= fun _ => rest.forM i.checkKey) = _
      by_cases he : e.type? = some i.keyType
      · have hrest : ∃ e ∈ rest, e.type? ≠ some i.keyType := by
          simpa [he] using hr
        rcases ih hrest with ⟨e', hmem, hne, herror⟩
        refine ⟨e', List.mem_cons_of_mem _ hmem, hne, ?_⟩
        rw [checkKey, if_pos he, Outcome.ok_bind, herror]
      · refine ⟨e, List.mem_cons_self, he, ?_⟩
        rw [checkKey, if_neg he, Outcome.error_bind]

theorem Follows.represents (h : i.Follows m) : i.Represents m where
  get := by
    rintro k (hnull | hk)
    · rw [Value.eq_null_of_type (Value.isNull_iff.mp hnull), h.get_null, KeyIndex.get,
        h.sound.get?_null]
      rfl
    · exact h.get k hk
  nodup := fun k hk => h.get k hk ▸ h.sound.nodup_get k
  single := fun hunique k hk => h.get k hk ▸ h.sound.length_get_le_one hunique k
  listed := by
    refine ⟨i.entries.keys, h.lists, ?_, fun wanted direction limit skip hr =>
      h.range_eq hr direction limit skip⟩
    rw [h.counted, SortedMap.keys, List.map_map]
    congr 1
    apply List.map_congr_left
    intro e he
    exact congrArg List.length (h.get_entry he).symm
  rejects := by
    intro wanted direction limit skip hr
    rcases checkRange_eq_error hr with ⟨e, hmem, hne, herror⟩
    refine ⟨e, hmem, hne, ?_⟩
    rw [range, herror, Outcome.error_bind]
  cost := by
    intro wanted direction ids hids
    rcases Outcome.bind_eq_ok_iff.mp hids with ⟨_, hcheck, hslice⟩
    have hids' : (direction.arrange (i.entriesIn (wanted.getD .all))).flatMap (·.2) = ids := by
      cases direction <;> exact Except.ok.inj hslice
    rw [← hids', Direction.length_flatMap_arrange, h.counted.cost_eq hcheck]

/-!
## Writing to an index and to its map
-/

theorem follows_clear (i : KeyIndex) : i.clear.Follows fun _ => [] where
  sound := {
    ascending := SortedMap.Ascending.nil
    nonempty := by simp [KeyIndex.clear]
    nodup := by simp [KeyIndex.clear]
    single := by simp [KeyIndex.clear] }
  counted := rfl
  get_null := rfl
  get := fun _ _ => rfl

theorem add_of_type_ne (hnull : key.isNull = false) (htype : key.type? ≠ some i.keyType)
    (id : RowId) : i.add key id = .error (.data (.keyType i.name i.keyType key)) := by
  simp [KeyIndex.add, hnull, checkKey, htype]

theorem add_of_conflicts (hkey : key.type? = some i.keyType) (hconf : i.conflicts key id = true) :
    i.add key id = .error (.keyNotUnique i.name key) := by
  simp [KeyIndex.add, Value.isNull_eq_false_of_type hkey, checkKey, hkey, hconf]

theorem Follows.conflicts_iff (h : i.Follows m) (hkey : key.type? = some i.keyType) :
    i.conflicts key id = true ↔ i.unique = true ∧ ∃ x ∈ m key, x ≠ id := by
  rw [← Bool.not_eq_false, conflicts_eq_false_iff (Value.isNull_eq_false_of_type hkey),
    h.get key hkey]
  push Not
  rfl

theorem Follows.add (h : i.Follows m) (hkey : key.type? = some i.keyType)
    (hconf : i.conflicts key id = false) :
    ∃ i', i.add key id = .ok i' ∧ i'.emptied = i.emptied ∧
      i'.Follows (m.put key (if id ∈ m key then m key else m key ++ [id])) := by
  rcases h.sound.add_ok hkey hconf with ⟨i', hadd, hsound, hemptied, hget⟩
  refine ⟨i', hadd, hemptied, hsound, h.counted.add h.sound hadd, ?_, ?_⟩
  · rw [KeyMap.put, Value.compare_null_left (Value.isNull_eq_false_of_type hkey),
      if_neg (by simp), h.get_null]
  · intro k hk
    rw [keyType_eq_of_emptied hemptied] at hk
    rw [hget k hk, h.get key hkey, h.get k hk, KeyMap.put]

theorem Follows.leave (h : i.Follows m) {keep : List RowId → List RowId}
    (hkeep : ∀ ids, (keep ids).Sublist ids)
    (hkey : key.isNull = true ∨ key.type? = some i.keyType) :
    (i.leave key keep).Follows (m.put key (keep (m key))) := by
  have hnil : keep [] = [] := List.sublist_nil.mp (hkeep [])
  refine ⟨h.sound.leave hkeep key, h.counted.leave h.sound hkeep key, ?_, ?_⟩
  · unfold KeyMap.put
    split
    · next heq =>
        rcases hkey with hnull | htype
        · rw [Value.eq_null_of_type (Value.isNull_iff.mp hnull), h.get_null, hnil]
        · rw [Value.compare_null_left (Value.isNull_eq_false_of_type htype)] at heq
          cases heq
    · exact h.get_null
  · intro k hk
    rw [keyType_eq_of_emptied (emptied_leave i key keep)] at hk
    rcases hkey with hnull | htype
    · have heq := Value.eq_null_of_type (Value.isNull_iff.mp hnull)
      have hleave : i.leave key keep = i := by
        unfold KeyIndex.leave
        rw [heq, h.sound.get?_null]
      rw [hleave, h.get k hk, KeyMap.put, heq,
        Value.compare_null_right (Value.isNull_eq_false_of_type hk), if_neg (by simp)]
    · rw [h.sound.get_leave hnil htype hk, h.get key htype, h.get k hk, KeyMap.put]

theorem Follows.set (h : i.Follows m) (hkey : key.type? = some i.keyType) (id : RowId) :
    ∃ i', (i.removeKey key).add key id = .ok i' ∧ i'.emptied = i.emptied ∧
      i'.Follows (m.put key [id]) := by
  have hleave := h.leave (fun ids => List.nil_sublist ids) (Or.inr hkey)
  rw [← removeKey_eq_leave] at hleave
  have hemptied : (i.removeKey key).emptied = i.emptied := emptied_leave i key fun _ => []
  have hkey' : key.type? = some (i.removeKey key).keyType := by
    rw [keyType_eq_of_emptied hemptied, hkey]
  have hnil : m.put key [] key = [] := by rw [KeyMap.put, if_pos (Value.compare_self key)]
  have hconf : (i.removeKey key).conflicts key id = false := by
    rw [← Bool.not_eq_true, hleave.conflicts_iff hkey', hnil]
    simp
  rcases hleave.add hkey' hconf with ⟨i', hadd, hemptied', hfollows⟩
  refine ⟨i', hadd, hemptied'.trans hemptied, ?_⟩
  rw [hnil, KeyMap.put_put] at hfollows
  exact hfollows

end KeyIndex

/-!
## Calls
-/

/-- A call that writes to an index. -/
inductive IndexCall
  | add (key : Value) (id : RowId)
  | set (key : Value) (id : RowId)
  | remove (key : Value) (id : Option RowId)
  | clear

namespace IndexCall

/-- Add a row to an index in place. -/
def enter (key : Value) (id : RowId) : Action KeyIndex Unit := do
  let i ← Action.ofOutcome ((← get).add key id)
  modify fun _ => i

def action : IndexCall → Action KeyIndex Unit
  | add key id => enter key id
  | set key id => do
      if key.isNull then return
      Action.ofOutcome ((← get).checkKey key)
      modify fun i => i.removeKey key
      enter key id
  | remove key (some id) => modify fun i => i.remove key id
  | remove key none => modify fun i => i.removeKey key
  | clear => modify KeyIndex.clear

/-- What the call does to the map of an index with a name, a type of keys and a flag that
tells whether it is unique. -/
def onMap (name : String) (type : ColumnType) (unique : Bool) : IndexCall → Action KeyMap Unit
  | add key id =>
      .ofFunction fun m =>
        if key.isNull then (.ok (), m)
        else if key.type? ≠ some type then (.error (.data (.keyType name type key)), m)
        else if unique = true ∧ ∃ x ∈ m key, x ≠ id then (.error (.keyNotUnique name key), m)
        else (.ok (), m.put key (if id ∈ m key then m key else m key ++ [id]))
  | set key id =>
      .ofFunction fun m =>
        if key.isNull then (.ok (), m)
        else if key.type? ≠ some type then (.error (.data (.keyType name type key)), m)
        else (.ok (), m.put key [id])
  | remove key (some id) => modify fun m => m.put key ((m key).filter (· != id))
  | remove key none => modify fun m => m.put key []
  | clear => modify fun _ _ => []

/-- Rows are removed under null and under keys of the type. -/
def RemovesKeys (type : ColumnType) : IndexCall → Prop
  | remove key _ => key.isNull = true ∨ key.type? = some type
  | _ => True

variable {i : KeyIndex} {m : KeyMap} {key : Value} {id : RowId} {type : ColumnType}

theorem perform_enter (i : KeyIndex) (key : Value) (id : RowId) :
    (enter key id).perform i =
      match i.add key id with
      | .ok i' => (.ok (), i')
      | .error f => (.error f, i) := by
  change (Action.ofOutcome (i.add key id) >>= fun i' => modify fun _ => i').perform i = _
  rw [Action.perform_bind, Action.perform_ofOutcome]
  cases i.add key id <;> rfl

theorem perform_set (i : KeyIndex) (key : Value) (id : RowId) :
    (set key id).action.perform i =
      if key.isNull = true then (.ok (), i)
      else if key.type? = some i.keyType then (enter key id).perform (i.removeKey key)
      else (.error (.data (.keyType i.name i.keyType key)), i) := by
  by_cases hnull : key.isNull = true
  · rw [action, if_pos hnull, if_pos hnull]
    rfl
  rw [action, if_neg hnull, if_neg hnull]
  change (Action.ofOutcome (i.checkKey key) >>= _).perform i = _
  by_cases hkey : key.type? = some i.keyType
  · rw [KeyIndex.checkKey, if_pos hkey, if_pos hkey]
    rfl
  · rw [KeyIndex.checkKey, if_neg hkey, if_neg hkey]
    rfl

/-- In place the call leaves the index that setting a row under a key gives. -/
theorem finalState_set (i : KeyIndex) (key : Value) (id : RowId) :
    (set key id).action.finalState i = i.set key id := by
  unfold Action.finalState KeyIndex.set
  rw [perform_set]
  by_cases hnull : key.isNull = true
  · rw [if_pos hnull, if_pos hnull]
  rw [if_neg hnull, if_neg hnull, KeyIndex.checkKey]
  by_cases hkey : key.type? = some i.keyType
  · rw [if_pos hkey, if_pos hkey, perform_enter, Outcome.ok_bind]
    cases (i.removeKey key).add key id <;> rfl
  · rw [if_neg hkey, if_neg hkey, Outcome.error_bind]

theorem matches_action (base : KeyIndex) (c : IndexCall) (hc : c.RemovesKeys base.keyType) :
    Action.Matches (fun i m => i.emptied = base.emptied ∧ i.Follows m) c.action
      (c.onMap base.name base.keyType base.unique) := by
  rintro i m ⟨hemptied, h⟩
  rw [← KeyIndex.keyType_eq_of_emptied hemptied] at hc ⊢
  rw [← KeyIndex.name_eq_of_emptied hemptied, ← KeyIndex.unique_eq_of_emptied hemptied]
  cases c with
  | add key id =>
      rw [action, perform_enter, onMap, Action.perform_ofFunction]
      by_cases hnull : key.isNull = true
      · rw [KeyIndex.add, if_pos hnull, if_pos hnull]
        exact ⟨rfl, hemptied, h⟩
      by_cases hkey : key.type? = some i.keyType
      · by_cases hconf : i.conflicts key id = true
        · rw [KeyIndex.add_of_conflicts hkey hconf, if_neg hnull, if_neg (not_not_intro hkey),
            if_pos ((h.conflicts_iff hkey).mp hconf)]
          exact ⟨rfl, hemptied, h⟩
        · rcases h.add hkey (Bool.eq_false_iff.mpr hconf) with ⟨i', hadd, hemptied', h'⟩
          rw [hadd, if_neg hnull, if_neg (not_not_intro hkey),
            if_neg fun hmap => hconf ((h.conflicts_iff hkey).mpr hmap)]
          exact ⟨rfl, hemptied'.trans hemptied, h'⟩
      · rw [KeyIndex.add_of_type_ne (Bool.eq_false_iff.mpr hnull) hkey, if_neg hnull, if_pos hkey]
        exact ⟨rfl, hemptied, h⟩
  | set key id =>
      rw [perform_set, onMap, Action.perform_ofFunction]
      by_cases hnull : key.isNull = true
      · rw [if_pos hnull, if_pos hnull]
        exact ⟨rfl, hemptied, h⟩
      by_cases hkey : key.type? = some i.keyType
      · -- No row is left under the key, so none conflicts with the new one.
        rcases h.set hkey id with ⟨i', hadd, hemptied', h'⟩
        rw [if_neg hnull, if_pos hkey, if_neg hnull, if_neg (not_not_intro hkey), perform_enter,
          hadd]
        exact ⟨rfl, hemptied'.trans hemptied, h'⟩
      · rw [if_neg hnull, if_neg hkey, if_neg hnull, if_pos hkey]
        exact ⟨rfl, hemptied, h⟩
  | remove key id =>
      cases id with
      | none =>
          rw [action, Action.perform_modify, KeyIndex.removeKey_eq_leave]
          refine ⟨rfl, (KeyIndex.emptied_leave i key _).trans hemptied, ?_⟩
          exact h.leave (fun _ => List.nil_sublist _) hc
      | some id =>
          rw [action, Action.perform_modify, KeyIndex.remove_eq_leave]
          refine ⟨rfl, (KeyIndex.emptied_leave i key _).trans hemptied, ?_⟩
          exact h.leave (fun _ => List.filter_sublist) hc
  | clear => exact ⟨rfl, hemptied, KeyIndex.follows_clear i⟩

end IndexCall

namespace KeyIndex

/-- After any calls an index is the map that the same calls make of the empty map. -/
theorem performAll_represents (name : String) (keyType : ColumnType) (unique : Bool)
    (direction : Direction) (calls : List IndexCall)
    (hcalls : ∀ c ∈ calls, c.RemovesKeys keyType) :
    let base : KeyIndex := { name, keyType, unique, direction }
    let onIndex := Action.performAll (calls.map IndexCall.action) base
    let onMap := Action.performAll (calls.map (IndexCall.onMap name keyType unique)) fun _ => []
    onIndex.1 = onMap.1 ∧ onIndex.2.emptied = base ∧ onIndex.2.Represents onMap.2 := by
  intro base onIndex onMap
  rcases Action.performAll_of_matches (s := base) (t := fun _ => [])
    (fun c hc => IndexCall.matches_action base c (hcalls c hc)) ⟨rfl, follows_clear base⟩ with
    ⟨hends, hemptied, hfollows⟩
  exact ⟨hends, hemptied, hfollows.represents⟩

theorem performAll_sizes :
    let calls : List IndexCall :=
      [.add (.int64 7) 1, .add (.int64 7) 2, .set (.int64 7) 2, .add (.int64 3) 1,
        .remove (.int64 3) none, .remove .null (some 2)]
    let onIndex := Action.performAll (calls.map IndexCall.action)
      { name := "item.bySize", keyType := .int64, unique := true, direction := .descending }
    let onMap := Action.performAll
      (calls.map (IndexCall.onMap "item.bySize" .int64 true)) fun _ => []
    onIndex.2.get (.int64 7) = [2] ∧ onIndex.2.size = 1 ∧ onIndex.1 = onMap.1 ∧
      onIndex.2.Represents onMap.2 := by
  intro calls onIndex onMap
  have hcalls : ∀ c ∈ calls, c.RemovesKeys .int64 := by
    simp [calls, IndexCall.RemovesKeys, Value.isNull, Value.type?]
  have hmap := performAll_represents "item.bySize" .int64 true .descending calls hcalls
  exact ⟨by decide, by decide, hmap.1, hmap.2.2⟩

end KeyIndex

end RelationalDb
