import Mathlib
import RelationalDb.Proofs.Index.Readable

/-!
# Scans between edges in order

An ordered map can be scanned from a lower edge to an upper one that does not come before it.
An index whose map refuses all other edges answers like one whose map takes any: the ends of a
range are checked to be keys before it is decided whether the range is empty, and only then is
the map scanned.  What a scan comes upon are the keys that the range contains.
-/

namespace RelationalDb

/-- Can a map be scanned from the lower edge to the upper one?  It cannot if the upper key comes
before the lower one, or if both are one key that is left out on either side. -/
def Edge.inOrder {κ : Type} [Ord κ] : Edge κ → Edge κ → Bool
  | unbounded, _ => true
  | _, unbounded => true
  | excluding l, excluding u => compare l u == .lt
  | excluding l, including u => compare l u != .gt
  | including l, excluding u => compare l u != .gt
  | including l, including u => compare l u != .gt

namespace KeyRange

variable {type : ColumnType} {r : KeyRange Value}

theorem inOrder_edges (hr : ∀ e ∈ r.endpoints, e.type? = some type) (hempty : r.isEmpty = false) :
    r.lower.inOrder r.upper = true := by
  cases r with
  | all => rfl
  | only k => simp [lower, upper, Edge.inOrder, Value.compare_self]
  | above k exclusive => cases exclusive <;> rfl
  | below k exclusive => rfl
  | between l u lowerExclusive upperExclusive =>
      have hl : l.type? = some type := hr l List.mem_cons_self
      have hu : u.type? = some type := hr u (List.mem_cons_of_mem _ List.mem_cons_self)
      have heq : (l == u) = (compare l u == .eq) := by
        rw [Bool.eq_iff_iff, Value.beq_iff_of_type hl hu, beq_iff_eq]
      rw [isEmpty, heq, Bool.or_eq_false_iff] at hempty
      rcases hempty with ⟨hgt, hequal⟩
      cases lowerExclusive <;> cases upperExclusive <;> cases h : compare l u <;>
        simp_all [lower, upper, Edge.ofKey, Edge.inOrder]

/-- That the ends are of one type is needed: ends of two types can be one key to the map, and yet
not be equal. -/
example :
    let r : KeyRange Value := .between (.int64 1) (.float64 ⟨0x3FF0000000000000⟩) true true
    r.isEmpty = false ∧ r.lower.inOrder r.upper = false := by
  decide

theorem contains_of_isEmpty (hr : ∀ e ∈ r.endpoints, e.type? = some type)
    (hempty : r.isEmpty = true) {k : Value} (hk : k.type? = some type) : r.contains k = false := by
  rw [← Bool.not_eq_true, ← admits_iff_contains hk hr]
  intro hadmits
  rw [hadmits.1] at hempty
  cases hempty

end KeyRange

namespace KeyIndex

variable {i : KeyIndex} {r : KeyRange Value}

/-!
## Maps that refuse edges
-/

/-- A scan of the entries between two edges; edges that are not in order are refused. -/
def guardedScan (i : KeyIndex) (lower upper : Edge Value) :
    Option (List (Value × List RowId)) :=
  if lower.inOrder upper then some (i.scan lower upper) else none

def guardedEntriesIn (i : KeyIndex) (wanted : KeyRange Value) :
    Option (List (Value × List RowId)) :=
  if wanted.isEmpty then some [] else i.guardedScan wanted.lower wanted.upper

def guardedRange (i : KeyIndex) (wanted : Option (KeyRange Value)) (direction : Direction)
    (limit : Option Nat) (skip : Nat) : Option (Outcome (List RowId)) :=
  let wanted := wanted.getD .all
  match i.checkRange wanted with
  | .error f => some (.error f)
  | .ok () =>
      (i.guardedEntriesIn wanted).map fun hits =>
        .ok (slice ((direction.arrange hits).flatMap (·.2)) limit skip)

def guardedCost (i : KeyIndex) (wanted : Option (KeyRange Value)) : Option Nat :=
  match wanted with
  | none | some .all => some i.size
  | some wanted =>
      match i.checkRange wanted with
      | .error _ => some i.size
      | .ok () =>
          (i.guardedEntriesIn wanted).map fun hits => (hits.map (·.2.length)).foldl (· + ·) 0

theorem guardedEntriesIn_eq (hcheck : i.checkRange r = .ok ()) :
    i.guardedEntriesIn r = some (i.entriesIn r) := by
  unfold guardedEntriesIn entriesIn
  cases hempty : r.isEmpty with
  | true => rfl
  | false =>
      have hends := checkRange_eq_ok_iff.mp hcheck
      rw [if_neg Bool.false_ne_true, if_neg Bool.false_ne_true, guardedScan,
        if_pos (KeyRange.inOrder_edges hends hempty)]

theorem guardedRange_eq (i : KeyIndex) (wanted : Option (KeyRange Value)) (direction : Direction)
    (limit : Option Nat) (skip : Nat) :
    i.guardedRange wanted direction limit skip = some (i.range wanted direction limit skip) := by
  unfold guardedRange range
  dsimp only
  cases hcheck : i.checkRange (wanted.getD .all) with
  | error f => rw [Outcome.error_bind]
  | ok u =>
      rw [guardedEntriesIn_eq hcheck, Outcome.ok_bind]
      cases direction <;> rfl

theorem guardedCost_eq (i : KeyIndex) (wanted : Option (KeyRange Value)) :
    i.guardedCost wanted = some (i.cost wanted) := by
  unfold guardedCost cost
  split
  next => rfl
  next => rfl
  next r _ =>
    have hends : i.checkRange r = .ok () ∨ ∃ f, i.checkRange r = .error f := by
      cases i.checkRange r with
      | ok u => exact Or.inl rfl
      | error f => exact Or.inr ⟨f, rfl⟩
    rcases hends with hcheck | ⟨f, hcheck⟩
    · simp only [hcheck, guardedEntriesIn_eq hcheck, Option.map_some]
    · simp only [hcheck]

/-!
## Indices that calls lead to
-/

/-- The indices that are declared or read from rows, and what any calls make of them. -/
inductive Made : KeyIndex → Prop
  | declared (name : String) (keyType : ColumnType) (unique : Bool) (direction : Direction) :
      Made { name, keyType, unique, direction }
  | read {name : String} {rows : List Row} {i : KeyIndex} (h : ofRows name rows = .ok i) : Made i
  | called {i : KeyIndex} (h : Made i) (call : IndexCall) : Made (call.action.perform i).2

theorem Counted.perform_enter (hc : i.Counted) (h : i.Sound) (key : Value) (id : RowId) :
    ((IndexCall.enter key id).perform i).2.Sound ∧
      ((IndexCall.enter key id).perform i).2.Counted := by
  rw [IndexCall.perform_enter]
  cases hadd : i.add key id with
  | error f => exact ⟨h, hc⟩
  | ok i' => exact ⟨(h.of_add hadd).1, hc.add h hadd⟩

theorem Counted.perform_leave (hc : i.Counted) (h : i.Sound) {keep : List RowId → List RowId}
    (hkeep : ∀ ids, (keep ids).Sublist ids) (key : Value) :
    (i.leave key keep).Sound ∧ (i.leave key keep).Counted :=
  ⟨h.leave hkeep key, hc.leave h hkeep key⟩

theorem Counted.perform (hc : i.Counted) (h : i.Sound) (call : IndexCall) :
    (call.action.perform i).2.Sound ∧ (call.action.perform i).2.Counted := by
  cases call with
  | add key id => exact hc.perform_enter h key id
  | set key id =>
      rw [IndexCall.perform_set]
      split
      · exact ⟨h, hc⟩
      · split
        · rw [removeKey_eq_leave]
          rcases hc.perform_leave h (fun _ => List.nil_sublist _) key with ⟨hleft, hcleft⟩
          exact hcleft.perform_enter hleft key id
        · exact ⟨h, hc⟩
  | remove key id =>
      cases id with
      | none =>
          rw [IndexCall.action, Action.perform_modify, removeKey_eq_leave]
          exact hc.perform_leave h (fun _ => List.nil_sublist _) key
      | some id =>
          rw [IndexCall.action, Action.perform_modify, remove_eq_leave]
          exact hc.perform_leave h (fun _ => List.filter_sublist) key
  | clear => exact ⟨(follows_clear i).sound, (follows_clear i).counted⟩

theorem Made.sound (h : i.Made) : i.Sound ∧ i.Counted := by
  induction h with
  | declared name keyType unique direction =>
      exact ⟨Sound.of_emptied { name, keyType, unique, direction }, rfl⟩
  | read h => exact sound_of_ofRows h
  | called _ call ih => exact ih.2.perform ih.1 call

/-- No range leads to a scan that an ordered map refuses.  If the ends of a range are keys, then
a scan comes upon the keys of the index that the range contains, and a range that is known to be
empty contains no key. -/
theorem scans_are_made_between_edges_in_order (h : i.Made) :
    (∀ wanted direction limit skip,
      i.guardedRange wanted direction limit skip = some (i.range wanted direction limit skip)) ∧
    (∀ wanted, i.guardedCost wanted = some (i.cost wanted)) ∧
    ∀ r : KeyRange Value, (∀ e ∈ r.endpoints, e.type? = some i.keyType) →
      let hits := i.entries.entries.filter fun e => r.contains e.1
      (i.entriesIn r).map (·.1) = i.entries.keys.filter r.contains ∧
      (∀ direction limit skip, i.range (some r) direction limit skip =
        .ok (slice ((direction.arrange hits).flatMap (·.2)) limit skip)) ∧
      i.cost (some r) = (hits.map fun e => e.2.length).sum ∧
      (r.isEmpty = true → ∀ k, k.type? = some i.keyType → r.contains k = false) := by
  rcases h.sound with ⟨hsound, hcounted⟩
  refine ⟨i.guardedRange_eq, i.guardedCost_eq, fun r hr => ?_⟩
  have hcheck := checkRange_eq_ok_iff.mpr hr
  intro hits
  have hhits : i.entriesIn r = hits := hsound.entriesIn_eq hr
  refine ⟨?_, ?_, ?_, ?_⟩
  · rw [hhits, SortedMap.keys, List.filter_map]
    rfl
  · intro direction limit skip
    rw [range, Option.getD_some, hcheck, Outcome.ok_bind, hhits]
    cases direction <;> rfl
  · have hcost : i.cost (some r) = ((i.entriesIn r).map fun e => e.2.length).sum :=
      hcounted.cost_eq hcheck
    rw [hcost, hhits]
  · exact fun hempty k hk => KeyRange.contains_of_isEmpty hr hempty hk

theorem sizes_between_three_and_eight_are_scanned :
    let calls : List IndexCall :=
      [.add (.int64 8) 1, .add (.int64 3) 2, .add (.int64 6) 3, .add (.int64 5) 4]
    let i := (Action.performAll (calls.map IndexCall.action)
      { name := "item.bySize", keyType := .int64, unique := false, direction := .ascending }).2
    let inner : KeyRange Value := .between (.int64 3) (.int64 8) true true
    let inverted : KeyRange Value := .between (.int64 8) (.int64 3) false false
    i.Made ∧ (i.entriesIn inner).map (·.1) = [.int64 5, .int64 6] ∧
      i.guardedRange (some inner) .descending none 0 = some (.ok [3, 4]) ∧
      i.guardedCost (some inverted) = some 0 ∧
      ∀ k, k.type? = some .int64 → inverted.contains k = false := by
  intro calls i inner inverted
  have hmade : i.Made :=
    ((((Made.declared "item.bySize" .int64 false .ascending).called (.add (.int64 8) 1)).called
      (.add (.int64 3) 2)).called (.add (.int64 6) 3)).called (.add (.int64 5) 4)
  rcases scans_are_made_between_edges_in_order hmade with ⟨hrange, hcost, hhits⟩
  have hinner : ∀ e ∈ inner.endpoints, e.type? = some i.keyType := by decide
  have hinverted : ∀ e ∈ inverted.endpoints, e.type? = some i.keyType := by decide
  refine ⟨hmade, ?_, ?_, ?_, (hhits inverted hinverted).2.2.2 rfl⟩
  · rw [(hhits inner hinner).1]
    rfl
  · rw [hrange, (hhits inner hinner).2.1]
    rfl
  · rw [hcost, (hhits inverted hinverted).2.2.1]
    rfl

end KeyIndex

end RelationalDb
