import Mathlib
import RelationalDb.Proofs.Actions
import RelationalDb.Proofs.Ordering
import RelationalDb.Relation.Aggregate

/-!
# Groups

Items with equal keys form a group.  The groups stand in the order in which their keys first
appear, and every item is in one of them.  Another order of the items gives the same groups, up
to their order and that of their items.
-/

namespace RelationalDb

instance equivBEq_list {α : Type} [BEq α] [EquivBEq α] : EquivBEq (List α) where
  rfl := by
    intro l
    induction l with
    | nil => rfl
    | cons a rest ih => rw [List.cons_beq_cons, ih, BEq.rfl, Bool.and_self]
  symm := by
    intro l m h
    induction l generalizing m with
    | nil => cases m <;> simp_all
    | cons a rest ih =>
        cases m with
        | nil => cases h
        | cons b rest' =>
            rw [List.cons_beq_cons, Bool.and_eq_true] at h ⊢
            exact And.intro (BEq.symm h.1) (ih h.2)
  trans := by
    intro l m n hlm hmn
    induction l generalizing m n with
    | nil => cases m <;> simp_all
    | cons a rest ih =>
        cases m with
        | nil => cases hlm
        | cons b rest' =>
            cases n with
            | nil => cases hmn
            | cons c rest'' =>
                rw [List.cons_beq_cons, Bool.and_eq_true] at hlm hmn ⊢
                exact And.intro (BEq.trans hlm.1 hmn.1) (ih hlm.2 hmn.2)

section Groups

variable {α κ : Type} [BEq κ] {key : α → κ}

def withKey (key : α → κ) (items : List α) (k : κ) : List α :=
  items.filter (key · == k)

/-- The items of each key, in the order in which the keys first appear. -/
def groupsOf (key : α → κ) (items : List α) : List (List α) :=
  (items.map key).eraseDups.map (withKey key items)

def without (key : α → κ) (seen : List κ) (items : List α) : List α :=
  items.filter fun a => !seen.any (· == key a)

theorem key_beq_of_mem {items : List α} {k : κ} {a : α} (h : a ∈ withKey key items k) :
    (key a == k) = true :=
  (List.mem_filter.mp h).2

theorem withKey_cons (a : α) (rest : List α) (k : κ) :
    withKey key (a :: rest) k =
      if key a == k then a :: withKey key rest k else withKey key rest k :=
  List.filter_cons

@[simp] theorem without_nil {items : List α} : without key [] items = items := by
  simp [without]

theorem without_of_any (seen : List κ) (k : κ) {seen' : List κ}
    (h : ∀ k', (seen'.any (· == k')) = (seen.any (· == k') || k == k')) (items : List α) :
    without key seen' items = without key [k] (without key seen items) := by
  unfold without
  rw [List.filter_filter]
  apply List.filter_congr
  intro a _
  simp [h, Bool.and_comm]

theorem without_cons_of_any {seen : List κ} {a : α} {rest : List α}
    (h : seen.any (· == key a) = true) : without key seen (a :: rest) = without key seen rest :=
  List.filter_cons_of_neg (by rw [h]; decide)

theorem without_cons_of_not_any {seen : List κ} {a : α} {rest : List α}
    (h : seen.any (· == key a) = false) :
    without key seen (a :: rest) = a :: without key seen rest :=
  List.filter_cons_of_pos (by rw [h]; decide)

theorem addToGroup_of_not_any {k : κ} {a : α} {groups : List (κ × List α)}
    (h : (groups.map (·.1)).any (· == k) = false) :
    addToGroup k a groups = groups ++ [(k, [a])] := by
  induction groups with
  | nil => rfl
  | cons g rest ih =>
      rw [List.map_cons, List.any_cons, Bool.or_eq_false_iff] at h
      rw [addToGroup, if_neg (by rw [h.1]; decide), ih h.2, List.cons_append]

/-!
## Distinct keys
-/

/-- Induction along a list where the items that are the same as the first one are left out. -/
theorem dropping_induction (same : α → α → Bool) {P : List α → Prop} (nil : P [])
    (cons : ∀ a rest, P (rest.filter fun b => !same b a) → P (a :: rest)) : ∀ items, P items
  | [] => nil
  | a :: rest => cons a rest (dropping_induction same nil cons _)
termination_by items => items.length
decreasing_by exact Nat.lt_succ_of_le (List.length_filter_le _ _)

theorem mem_of_mem_eraseDups {k : κ} {ks : List κ} (h : k ∈ ks.eraseDups) : k ∈ ks := by
  induction ks using dropping_induction fun k k' : κ => k == k' with
  | nil => cases h
  | cons k' rest ih =>
      rw [List.eraseDups_cons] at h
      rcases List.mem_cons.mp h with rfl | h
      · exact List.mem_cons_self
      · exact List.mem_cons_of_mem _ (List.mem_of_mem_filter (ih h))

theorem pairwise_eraseDups (ks : List κ) : ks.eraseDups.Pairwise fun k k' => (k' == k) = false := by
  induction ks using dropping_induction fun k k' : κ => k == k' with
  | nil => exact List.Pairwise.nil
  | cons k rest ih =>
      rw [List.eraseDups_cons]
      constructor
      · intro k' hk'
        simpa using List.of_mem_filter (mem_of_mem_eraseDups hk')
      · exact ih

variable [EquivBEq κ]

theorem exists_mem_eraseDups {k : κ} {ks : List κ} (h : k ∈ ks) :
    ∃ k' ∈ ks.eraseDups, (k == k') = true := by
  induction ks using dropping_induction fun k k' : κ => k == k' with
  | nil => cases h
  | cons k' rest ih =>
      rw [List.eraseDups_cons]
      by_cases hk : (k == k') = true
      · exact ⟨k', List.mem_cons_self, hk⟩
      · rcases List.mem_cons.mp h with rfl | h
        · exact absurd BEq.rfl hk
        · have hrest : k ∈ rest.filter fun b => !(b == k') := by
            simpa [h] using hk
          rcases ih hrest with ⟨k'', hk'', heq⟩
          exact ⟨k'', List.mem_cons_of_mem _ hk'', heq⟩

theorem exists_perm_of_distinct {ks ms : List κ}
    (hks : ks.Pairwise fun k k' => (k' == k) = false)
    (hms : ms.Pairwise fun k k' => (k' == k) = false)
    (hfrom : ∀ k ∈ ks, ∃ m ∈ ms, (k == m) = true) (hto : ∀ m ∈ ms, ∃ k ∈ ks, (k == m) = true) :
    ∃ ms', ms'.Perm ms ∧ List.Forall₂ (fun k m => (k == m) = true) ks ms' := by
  induction ks generalizing ms with
  | nil =>
      cases ms with
      | nil => exact ⟨[], List.Perm.refl _, List.Forall₂.nil⟩
      | cons m _ =>
          rcases hto m List.mem_cons_self with ⟨k, hk, _⟩
          cases hk
  | cons k rest ih =>
      -- The key that equals the first one is taken out.  No other key on either side equals these.
      rcases hfrom k List.mem_cons_self with ⟨m, hm, hkm⟩
      rcases List.append_of_mem hm with ⟨front, back, rfl⟩
      have hperm : (front ++ m :: back).Perm (m :: (front ++ back)) := List.perm_middle
      have hdistinct : ∀ m' ∈ front ++ back, (m' == m) = false := by
        intro m' hm'
        rcases List.mem_append.mp hm' with hfront | hback
        · rw [BEq.comm]
          exact (List.pairwise_append.mp hms).2.2 m' hfront m List.mem_cons_self
        · exact (List.pairwise_cons.mp (List.pairwise_append.mp hms).2.1).1 m' hback
      rw [List.pairwise_cons] at hks
      have hrest := ih hks.2
        (hms.sublist (List.Sublist.append_left (List.sublist_cons_self m back) front))
        (by
          intro k' hk'
          rcases hfrom k' (List.mem_cons_of_mem k hk') with ⟨m', hm', heq⟩
          rcases List.mem_cons.mp (hperm.mem_iff.mp hm') with rfl | hm'
          · have hsame := BEq.trans heq (BEq.symm hkm)
            rw [hks.1 k' hk'] at hsame
            cases hsame
          · exact ⟨m', hm', heq⟩)
        (by
          intro m' hm'
          rcases hto m' (hperm.mem_iff.mpr (List.mem_cons_of_mem m hm')) with ⟨k', hk', heq⟩
          rcases List.mem_cons.mp hk' with rfl | hk'
          · have hsame := BEq.trans (BEq.symm heq) hkm
            rw [hdistinct m' hm'] at hsame
            cases hsame
          · exact ⟨k', hk', heq⟩)
      rcases hrest with ⟨ms', hperm', hsame⟩
      exact ⟨m :: ms', (hperm'.cons m).trans hperm.symm, List.Forall₂.cons hkm hsame⟩

theorem exists_perm_eraseDups {ks ms : List κ} (h : ks.Perm ms) :
    ∃ ms', ms'.Perm ms.eraseDups ∧ List.Forall₂ (fun k m => (k == m) = true) ks.eraseDups ms' := by
  apply exists_perm_of_distinct (pairwise_eraseDups ks) (pairwise_eraseDups ms)
  · intro k hk
    exact exists_mem_eraseDups (h.mem_iff.mp (mem_of_mem_eraseDups hk))
  · intro m hm
    rcases exists_mem_eraseDups (h.mem_iff.mpr (mem_of_mem_eraseDups hm)) with ⟨k, hk, heq⟩
    exact ⟨k, hk, BEq.symm heq⟩

/-!
## The groups one by one
-/

theorem withKey_congr {items : List α} {k k' : κ} (h : (k == k') = true) :
    withKey key items k = withKey key items k' := by
  apply List.filter_congr
  intro a _
  exact BEq.congr_right h

theorem without_singleton (a : α) (rest : List α) :
    without key [key a] rest = rest.filter fun b => !(key b == key a) := by
  apply List.filter_congr
  intro b _
  simp [BEq.comm]

theorem groupsOf_cons (a : α) (rest : List α) :
    groupsOf key (a :: rest) =
      (a :: withKey key rest (key a)) :: groupsOf key (without key [key a] rest) := by
  have hhead : withKey key (a :: rest) (key a) = a :: withKey key rest (key a) := by
    rw [withKey_cons, if_pos BEq.rfl]
  unfold groupsOf
  rw [List.map_cons, List.eraseDups_cons, List.map_cons, hhead, without_singleton,
    List.filter_map]
  congr 1
  apply List.map_congr_left
  intro k hk
  have hnew : (k == key a) = false := by
    rcases List.mem_map.mp (mem_of_mem_eraseDups hk) with ⟨b, hb, rfl⟩
    simpa using (List.mem_filter.mp hb).2
  rw [withKey_cons, BEq.comm, hnew, if_neg Bool.false_ne_true]
  unfold withKey
  rw [List.filter_filter]
  apply List.filter_congr
  intro b _
  cases hb : key b == k with
  | false => rfl
  | true => rw [BEq.congr_left hb, hnew]; rfl

theorem exists_of_mem_groupsOf {items group : List α} (h : group ∈ groupsOf key items) :
    ∃ a rest, group = a :: rest ∧ ∀ b ∈ group, b ∈ items ∧ (key b == key a) = true := by
  rcases List.mem_map.mp h with ⟨k, hk, rfl⟩
  rcases List.mem_map.mp (mem_of_mem_eraseDups hk) with ⟨a', ha', rfl⟩
  have hmem : a' ∈ withKey key items (key a') := List.mem_filter.mpr ⟨ha', BEq.rfl⟩
  cases hgroup : withKey key items (key a') with
  | nil =>
      rw [hgroup] at hmem
      cases hmem
  | cons a rest =>
      exists a, rest
      constructor
      · rfl
      · intro b hb
        rw [← hgroup] at hb
        have ha : a ∈ withKey key items (key a') := by
          rw [hgroup]
          exact List.mem_cons_self
        constructor
        · exact List.mem_of_mem_filter hb
        · exact BEq.trans (key_beq_of_mem hb) (BEq.symm (key_beq_of_mem ha))

theorem sum_length_groupsOf (items : List α) :
    ((groupsOf key items).map List.length).sum = items.length := by
  induction items using dropping_induction fun b a => key b == key a with
  | nil => rfl
  | cons a rest ih =>
      rw [groupsOf_cons, without_singleton, List.map_cons, List.sum_cons, ih, List.length_cons,
        List.length_cons, List.length_eq_length_filter_add (l := rest) (key · == key a), withKey]
      omega

/-- The same items in another order have the same groups, in some order too. -/
theorem exists_perm_groupsOf (key : α → κ) {items items' : List α} (h : items.Perm items') :
    ∃ groups, groups.Perm (groupsOf key items') ∧
      List.Forall₂ List.Perm (groupsOf key items) groups := by
  rcases exists_perm_eraseDups (h.map key) with ⟨ks, hperm, hsame⟩
  exists ks.map (withKey key items')
  constructor
  · exact hperm.map _
  · unfold groupsOf
    rw [List.forall₂_map_left_iff, List.forall₂_map_right_iff]
    apply hsame.imp
    intro k k' hk
    rw [withKey_congr hk]
    exact h.filter _

theorem rel_of_forall₂ {β γ : Type} {R : β → γ → Prop} {l : List β} {m : List γ}
    (h : List.Forall₂ R l m) : Multiset.Rel R l m := by
  induction h with
  | nil => exact Multiset.Rel.zero
  | cons hR _ ih =>
      rw [← Multiset.cons_coe, ← Multiset.cons_coe]
      exact Multiset.Rel.cons hR ih

/-- What is made of the groups is related for every order of the items, if it is for every order
of a group. -/
theorem rel_map_groupsOf {β : Type} {R : β → β → Prop} {f f' : List α → β}
    {items items' : List α} (h : items.Perm items')
    (hf : ∀ group ∈ groupsOf key items, ∀ group', group.Perm group' → R (f group) (f' group')) :
    Multiset.Rel R ((groupsOf key items).map f) ((groupsOf key items').map f') := by
  rcases exists_perm_groupsOf key h with ⟨groups, hperm, hgroups⟩
  rw [← Multiset.coe_eq_coe.mpr (hperm.map f')]
  apply rel_of_forall₂
  rw [List.forall₂_map_left_iff, List.forall₂_map_right_iff]
  apply (forall₂_mem hgroups).imp
  intro group group' hpair
  exact hf group hpair.1 group' hpair.2.2

/-!
## Grouping item by item
-/

theorem withKey_without {seen : List κ} {k : κ} (h : seen.any (· == k) = false)
    (items : List α) : withKey key (without key seen items) k = withKey key items k := by
  unfold withKey without
  rw [List.filter_filter]
  apply List.filter_congr
  intro a _
  cases ha : key a == k with
  | false => rfl
  | true =>
      have hsame : (seen.any fun k' => k' == key a) = seen.any fun k' => k' == k := by
        congr 1
        funext k'
        exact BEq.congr_right ha
      rw [hsame, h]
      rfl

theorem addToGroup_of_any {k : κ} {a : α} {groups : List (κ × List α)}
    (hgroups : (groups.map (·.1)).Pairwise fun k k' => (k' == k) = false)
    (h : (groups.map (·.1)).any (· == k) = true) :
    addToGroup k a groups = groups.map fun g => (g.1, if g.1 == k then g.2 ++ [a] else g.2) := by
  induction groups with
  | nil => cases h
  | cons g rest ih =>
      rw [List.map_cons, List.pairwise_cons] at hgroups
      rw [addToGroup, List.map_cons]
      cases hg : g.1 == k with
      | true =>
          rw [if_pos rfl, if_pos rfl]
          congr 1
          -- The keys behind it differ from the key of the first group, which is that of the item.
          have hrest : ∀ g' ∈ rest, (g'.1 == k) = false := by
            intro g' hg'
            rw [← BEq.congr_right hg]
            exact hgroups.1 g'.1 (List.mem_map_of_mem hg')
          rw [List.map_congr_left (g := id) fun g' hg' => by rw [hrest g' hg']; rfl, List.map_id]
      | false =>
          rw [List.map_cons, List.any_cons, hg, Bool.false_or] at h
          rw [if_neg Bool.false_ne_true, if_neg Bool.false_ne_true, ih hgroups.2 h]

/-- Items that are added to some groups get into the group of their key or, if there is none,
into new groups behind them. -/
theorem map_snd_foldl_addToGroup (items : List α) (groups : List (κ × List α))
    (hgroups : (groups.map (·.1)).Pairwise fun k k' => (k' == k) = false) :
    (items.foldl (fun groups a => addToGroup (key a) a groups) groups).map (·.2) =
      groups.map (fun g => g.2 ++ withKey key items g.1) ++
        groupsOf key (without key (groups.map (·.1)) items) := by
  induction items generalizing groups with
  | nil => simp [withKey, without, groupsOf]
  | cons a rest ih =>
      rw [List.foldl_cons]
      cases hany : (groups.map (·.1)).any (· == key a) with
      | true =>
          -- The group of the key is there, so the keys stay and the item ends its group.
          let added (g : κ × List α) := (g.1, if g.1 == key a then g.2 ++ [a] else g.2)
          have hkeys : (groups.map added).map (·.1) = groups.map (·.1) := by
            rw [List.map_map]
            rfl
          rw [addToGroup_of_any hgroups hany, ih (groups.map added) (by rwa [hkeys]), hkeys,
            without_cons_of_any hany, List.map_map]
          congr 1
          apply List.map_congr_left
          intro g _
          show (if g.1 == key a then g.2 ++ [a] else g.2) ++ withKey key rest g.1 = _
          rw [withKey_cons, BEq.comm (a := key a)]
          cases g.1 == key a with
          | true => exact List.append_assoc g.2 [a] _
          | false => rfl
      | false =>
          -- The item starts a group, which takes the rest of its key out of the remaining items.
          have hnew : ∀ k ∈ groups.map (·.1), (k == key a) = false := by
            simpa using hany
          rw [addToGroup_of_not_any hany, ih, without_cons_of_not_any hany, groupsOf_cons,
            withKey_without hany, List.map_append, List.map_append,
            without_of_any (groups.map (·.1)) (key a) (by simp), List.append_assoc]
          · congr 1
            apply List.map_congr_left
            intro g hg
            rw [withKey_cons, BEq.comm, hnew g.1 (List.mem_map_of_mem hg)]
            rfl
          · rw [List.map_append, List.pairwise_append]
            constructor
            · exact hgroups
            · constructor
              · exact List.pairwise_singleton _ _
              · intro k hk k' hk'
                rw [List.mem_singleton.mp hk', BEq.comm]
                exact hnew k hk

theorem map_snd_groupsBy (items : List α) :
    (groupsBy key items).map (·.2) = groupsOf key items := by
  have hfold : _ = _ ++ groupsOf key _ := map_snd_foldl_addToGroup items [] List.Pairwise.nil
  rwa [List.map_nil, List.map_nil, without_nil] at hfold

theorem forall₂_firstOfEach (key : α → κ) (seen : List κ) (items : List α) :
    List.Forall₂ (fun group a => group.head? = some a) (groupsOf key (without key seen items))
      (firstOfEach key seen items) := by
  induction items generalizing seen with
  | nil => exact List.Forall₂.nil
  | cons a rest ih =>
      rw [firstOfEach]
      cases hany : seen.any (· == key a) with
      | true =>
          rw [without_cons_of_any hany]
          exact ih seen
      | false =>
          have hrest := ih (key a :: seen)
          rw [without_of_any seen (key a) (by simp [Bool.or_comm])] at hrest
          rw [without_cons_of_not_any hany, groupsOf_cons]
          exact List.Forall₂.cons rfl hrest

theorem firstOfEach_id (seen items : List κ) :
    firstOfEach id seen items = (without id seen items).eraseDups := by
  induction items generalizing seen with
  | nil => rfl
  | cons k rest ih =>
      rw [firstOfEach]
      cases hany : seen.any (· == id k) with
      | true =>
          rw [without_cons_of_any hany]
          exact ih seen
      | false =>
          rw [without_cons_of_not_any hany, List.eraseDups_cons]
          show k :: firstOfEach id (id k :: seen) rest = _
          rw [ih, without_of_any seen (id k) (by simp [Bool.or_comm]),
            without_singleton]
          rfl

end Groups

end RelationalDb
