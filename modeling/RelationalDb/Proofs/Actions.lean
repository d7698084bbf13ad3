import Mathlib
import RelationalDb.Action

/-!
# Running actions

`Action.perform` gives how an action ends and the state it leaves.  The equations below run
the steps of an action one after the other, so that nothing else has to unfold the monad.
-/

namespace RelationalDb

/-!
## Related lists
-/

theorem exists_of_mem_right {α β : Type} {R : α → β → Prop} {l : List α} {l' : List β} {b : β}
    (h : List.Forall₂ R l l') (hb : b ∈ l') : ∃ a ∈ l, R a b := by
  induction h with
  | nil => cases hb
  | cons hR _ ih =>
      rcases List.mem_cons.mp hb with rfl | hb
      · exact ⟨_, List.mem_cons_self, hR⟩
      · rcases ih hb with ⟨a, ha, hab⟩
        exact ⟨a, List.mem_cons_of_mem _ ha, hab⟩

theorem exists_of_mem_left {α β : Type} {R : α → β → Prop} {l : List α} {l' : List β} {a : α}
    (h : List.Forall₂ R l l') (ha : a ∈ l) : ∃ b ∈ l', R a b :=
  exists_of_mem_right h.flip ha

theorem exists_forall₂ {α β : Type} {R : α → β → Prop} {l : List α} (h : ∀ a ∈ l, ∃ b, R a b) :
    ∃ l', List.Forall₂ R l l' := by
  induction l with
  | nil => exact ⟨[], List.Forall₂.nil⟩
  | cons a rest ih =>
      rcases h a List.mem_cons_self with ⟨b, hb⟩
      rcases ih fun a' ha' => h a' (List.mem_cons_of_mem _ ha') with ⟨bs, hbs⟩
      exact ⟨b :: bs, List.Forall₂.cons hb hbs⟩

theorem forall₂_mem {α β : Type} {R : α → β → Prop} {l : List α} {l' : List β}
    (h : List.Forall₂ R l l') : List.Forall₂ (fun a b => a ∈ l ∧ b ∈ l' ∧ R a b) l l' := by
  rw [List.forall₂_iff_zip] at h ⊢
  refine ⟨h.1, ?_⟩
  intro a b hzip
  exact ⟨(List.of_mem_zip hzip).1, (List.of_mem_zip hzip).2, h.2 hzip⟩

theorem forall₂_and {α β : Type} {R R' : α → β → Prop} {l : List α} {l' : List β}
    (h : List.Forall₂ R l l') (h' : List.Forall₂ R' l l') :
    List.Forall₂ (fun a b => R a b ∧ R' a b) l l' := by
  rw [List.forall₂_iff_zip] at h h' ⊢
  exact ⟨h.1, fun hzip => ⟨h.2 hzip, h'.2 hzip⟩⟩

theorem find?_of_unique {α : Type} {p : α → Bool} {l : List α} {a : α} (ha : a ∈ l)
    (hp : p a = true) (hunique : ∀ b ∈ l, p b = true → b = a) : l.find? p = some a := by
  cases hfind : l.find? p with
  | none => exact absurd hp (List.find?_eq_none.mp hfind a ha)
  | some b => rw [hunique b (List.mem_of_find?_eq_some hfind) (List.find?_some hfind)]

theorem map_eq_of_forall₂ {α β γ : Type} {f : α → γ} {g : β → γ} {l : List α} {l' : List β}
    (h : List.Forall₂ (fun a b => f a = g b) l l') : l.map f = l'.map g := by
  induction h with
  | nil => rfl
  | cons hab _ ih => rw [List.map_cons, List.map_cons, hab, ih]

theorem filterMap_eq_of_forall₂ {α β : Type} {f : α → Option β} {l : List α} {l' : List β}
    (h : List.Forall₂ (fun a b => f a = some b) l l') : l.filterMap f = l' := by
  induction h with
  | nil => rfl
  | cons hab _ ih => rw [List.filterMap_cons_some hab, ih]

/-!
## Outcomes
-/

namespace Outcome

variable {α β : Type}

theorem bind_eq_ok_iff {x : Outcome α} {f : α → Outcome β} {b : β} :
    x >>= f = .ok b ↔ ∃ a, x = .ok a ∧ f a = .ok b := by
  cases x with
  | error e => simp [bind, Except.bind]
  | ok a => simp [bind, Except.bind]

theorem map_eq_ok_iff {x : Outcome α} {f : α → β} {b : β} :
    x.map f = .ok b ↔ ∃ a, x = .ok a ∧ f a = b := by
  cases x with
  | error e => simp [Except.map]
  | ok a => simp [Except.map]

@[simp] theorem ok_bind (a : α) (f : α → Outcome β) : (Except.ok a : Outcome α) >>= f = f a :=
  rfl

@[simp] theorem error_bind (e : Failure) (f : α → Outcome β) :
    (Except.error e : Outcome α) >>= f = .error e :=
  rfl

@[simp] theorem pure_eq_ok (a : α) : (pure a : Outcome α) = .ok a := rfl

@[simp] theorem throw_eq_error (e : Failure) : (throw e : Outcome α) = .error e := rfl

theorem forM_eq_ok_iff {f : α → Outcome Unit} {l : List α} :
    l.forM f = .ok () ↔ ∀ a ∈ l, f a = .ok () := by
  induction l with
  | nil => simp
  | cons a rest ih =>
      change ((f a >>= fun _ => rest.forM f) = .ok ()) ↔ _
      rw [bind_eq_ok_iff, List.forall_mem_cons, ← ih]
      constructor
      · rintro ⟨u, ha, hrest⟩
        exact ⟨ha, hrest⟩
      · rintro ⟨ha, hrest⟩
        exact ⟨(), ha, hrest⟩

theorem forM_congr {f : α → Outcome Unit} {g : β → Outcome Unit} {l : List α} {l' : List β}
    (h : List.Forall₂ (fun a b => f a = g b) l l') : l.forM f = l'.forM g := by
  induction h with
  | nil => rfl
  | @cons a b rest rest' hab _ ih =>
      change (f a >>= fun _ => rest.forM f) = (g b >>= fun _ => rest'.forM g)
      rw [hab, ih]

theorem mapM_eq_ok_iff {f : α → Outcome β} {l : List α} {l' : List β} :
    l.mapM f = .ok l' ↔ List.Forall₂ (fun a b => f a = .ok b) l l' := by
  induction l generalizing l' with
  | nil =>
      rw [List.forall₂_nil_left_iff, List.mapM_nil]
      constructor
      · intro h
        cases h
        rfl
      · rintro rfl
        rfl
  | cons a rest ih =>
      rw [List.mapM_cons, bind_eq_ok_iff, List.forall₂_cons_left_iff]
      constructor
      · rintro ⟨b, hb, hrest⟩
        rcases bind_eq_ok_iff.mp hrest with ⟨bs, hbs, heq⟩
        cases heq
        exact ⟨b, bs, hb, ih.mp hbs, rfl⟩
      · rintro ⟨b, bs, hb, hbs, rfl⟩
        exact ⟨b, hb, bind_eq_ok_iff.mpr ⟨bs, ih.mpr hbs, rfl⟩⟩

theorem mapM_ok {R : α → β → Prop} {f : α → Outcome β} {l : List α}
    (h : ∀ a ∈ l, ∃ b, f a = .ok b ∧ R a b) :
    ∃ l', l.mapM f = .ok l' ∧ List.Forall₂ R l l' := by
  induction l with
  | nil => exact ⟨[], rfl, List.Forall₂.nil⟩
  | cons a rest ih =>
      rcases h a List.mem_cons_self with ⟨b, hb, hR⟩
      rcases ih fun a' ha' => h a' (List.mem_cons_of_mem _ ha') with ⟨bs, hbs, hall⟩
      refine ⟨b :: bs, ?_, List.Forall₂.cons hR hall⟩
      rw [List.mapM_cons, hb, ok_bind, hbs]
      rfl

theorem exists_of_mapM_eq_ok {f : α → Outcome β} {l : List α} {l' : List β} {b : β}
    (h : l.mapM f = .ok l') (hb : b ∈ l') : ∃ a ∈ l, f a = .ok b := by
  rcases exists_of_mem_right (mapM_eq_ok_iff.mp h) hb with ⟨a, ha, hab⟩
  exact ⟨a, ha, hab⟩

end Outcome

namespace Action

variable {σ τ α β : Type}

@[simp] theorem perform_pure (a : α) (s : σ) : (pure a : Action σ α).perform s = (.ok a, s) :=
  rfl

theorem perform_bind (x : Action σ α) (f : α → Action σ β) (s : σ) :
    (x >>= f).perform s =
      match x.perform s with
      | (.ok a, s') => (f a).perform s'
      | (.error e, s') => (.error e, s') := by
  rcases hx : x.perform s with ⟨r, s'⟩
  have hrun : StateT.run (ExceptT.run x) s = (r, s') := hx
  change StateT.run (ExceptT.run (x >>= f)) s = _
  rw [ExceptT.run_bind, StateT.run_bind, hrun]
  cases r <;> rfl

theorem perform_bind_ok {x : Action σ α} {f : α → Action σ β} {s s' : σ} {a : α}
    (h : x.perform s = (.ok a, s')) : (x >>= f).perform s = (f a).perform s' := by
  rw [perform_bind, h]

theorem perform_bind_error {x : Action σ α} {f : α → Action σ β} {s s' : σ} {e : Failure}
    (h : x.perform s = (.error e, s')) : (x >>= f).perform s = (.error e, s') := by
  rw [perform_bind, h]

theorem perform_bind_pure (x : Action σ α) (f : α → β) (s : σ) :
    (x >>= fun a => pure (f a)).perform s = ((x.perform s).1.map f, (x.perform s).2) := by
  rw [perform_bind]
  rcases x.perform s with ⟨r, s'⟩
  cases r <;> rfl

/-- What is answered in the end does not matter to the state. -/
theorem perform_bind_ofOutcome (x : Action σ α) (r : Outcome β) (s : σ) :
    ((x >>= fun _ => ofOutcome r).perform s).2 = (x.perform s).2 := by
  rw [perform_bind]
  rcases x.perform s with ⟨o, s'⟩
  cases o <;> rfl

theorem perform_bind_eq_ok {x : Action σ α} {f : α → Action σ β} {s s'' : σ} {b : β}
    (h : (x >>= f).perform s = (.ok b, s'')) :
    ∃ a s', x.perform s = (.ok a, s') ∧ (f a).perform s' = (.ok b, s'') := by
  rw [perform_bind] at h
  rcases hx : x.perform s with ⟨r, s'⟩
  rw [hx] at h
  cases r with
  | error e => simp at h
  | ok a => exact ⟨a, s', rfl, h⟩

theorem perform_bind_eq_error {x : Action σ α} {f : α → Action σ β} {s s'' : σ} {e : Failure}
    (h : (x >>= f).perform s = (.error e, s'')) :
    x.perform s = (.error e, s'') ∨
      ∃ a s', x.perform s = (.ok a, s') ∧ (f a).perform s' = (.error e, s'') := by
  rw [perform_bind] at h
  rcases hx : x.perform s with ⟨r, s'⟩
  rw [hx] at h
  cases r with
  | error e' =>
      cases h
      exact Or.inl rfl
  | ok a => exact Or.inr ⟨a, s', rfl, h⟩

@[simp] theorem perform_get (s : σ) : (get : Action σ σ).perform s = (.ok s, s) := rfl

@[simp] theorem perform_set (s s' : σ) : (set s' : Action σ PUnit).perform s = (.ok ⟨⟩, s') :=
  rfl

@[simp] theorem perform_modify (f : σ → σ) (s : σ) :
    (modify f : Action σ PUnit).perform s = (.ok ⟨⟩, f s) := rfl

@[simp] theorem perform_throw (e : Failure) (s : σ) :
    (throw e : Action σ α).perform s = (.error e, s) := rfl

@[simp] theorem perform_ofFunction (f : σ → Outcome α × σ) (s : σ) :
    (ofFunction f).perform s = f s := rfl

@[simp] theorem perform_ofOutcome (r : Outcome α) (s : σ) :
    (ofOutcome r : Action σ α).perform s = (r, s) := rfl

@[simp] theorem perform_attempt (a : Action σ α) (s : σ) :
    (attempt a).perform s = (.ok (a.perform s).1, (a.perform s).2) := rfl

@[simp] theorem perform_onPart (part : σ → τ) (replace : τ → σ → σ) (a : Action τ α) (s : σ) :
    (onPart part replace a).perform s =
      ((a.perform (part s)).1, replace (a.perform (part s)).2 s) := rfl

/-!
## Working on every item
-/

theorem perform_onEach_cons (a : Action σ Unit) (s : σ) (l : List σ) :
    (onEach a).perform (s :: l) =
      match a.perform s with
      | (.error f, s') => (.error f, s' :: l)
      | (.ok (), s') => (((onEach a).perform l).1, s' :: ((onEach a).perform l).2) := rfl

theorem perform_onEach_ok {R : σ → σ → Prop} {a : Action σ Unit} {l : List σ}
    (h : ∀ s ∈ l, ∃ s', a.perform s = (.ok (), s') ∧ R s s') :
    ∃ l', (onEach a).perform l = (.ok (), l') ∧ List.Forall₂ R l l' := by
  induction l with
  | nil => exact ⟨[], rfl, List.Forall₂.nil⟩
  | cons s rest ih =>
      rcases h s List.mem_cons_self with ⟨s', hs', hR⟩
      rcases ih (fun s hs => h s (List.mem_cons_of_mem _ hs)) with ⟨rest', hrest', hall⟩
      refine ⟨s' :: rest', ?_, List.Forall₂.cons hR hall⟩
      rw [perform_onEach_cons, hs', hrest']

theorem forall₂_of_perform_onEach {a : Action σ Unit} {l l' : List σ}
    (h : (onEach a).perform l = (.ok (), l')) :
    List.Forall₂ (fun s s' => a.perform s = (.ok (), s')) l l' := by
  induction l generalizing l' with
  | nil =>
      cases h
      exact List.Forall₂.nil
  | cons s rest ih =>
      rw [perform_onEach_cons] at h
      rcases hs : a.perform s with ⟨r, s'⟩
      rw [hs] at h
      cases r with
      | error e => simp at h
      | ok u =>
          rcases hrest : (onEach a).perform rest with ⟨r', rest'⟩
          rw [hrest] at h
          simp only [Prod.mk.injEq] at h
          rcases h with ⟨hr', hl'⟩
          rw [← hl']
          exact List.Forall₂.cons hs (ih (by rw [hrest, hr']))

/-!
## What an action keeps
-/

/-- The action leads from states with a property only to states with that property, whether it
succeeds or fails. -/
def Keeps (P : σ → Prop) (a : Action σ α) : Prop :=
  ∀ s, P s → P (a.perform s).2

variable {P : σ → Prop}

theorem keeps_pure (a : α) : Keeps P (pure a : Action σ α) := fun _ h => h

theorem keeps_throw (e : Failure) : Keeps P (throw e : Action σ α) := fun _ h => h

theorem keeps_get : Keeps P (get : Action σ σ) := fun _ h => h

theorem keeps_ofOutcome (r : Outcome α) : Keeps P (ofOutcome r : Action σ α) := fun _ h => h

theorem Keeps.bind {x : Action σ α} {f : α → Action σ β} (hx : Keeps P x)
    (hf : ∀ a, Keeps P (f a)) : Keeps P (x >>= f) := by
  intro s hs
  have hx' := hx s hs
  rw [perform_bind]
  rcases hperform : x.perform s with ⟨r, s'⟩
  rw [hperform] at hx'
  cases r with
  | error e => exact hx'
  | ok a => exact hf a s' hx'

theorem Keeps.attempt {a : Action σ α} (ha : Keeps P a) : Keeps P (attempt a) := ha

theorem Keeps.onPart {Q : τ → Prop} {part : σ → τ} {replace : τ → σ → σ} {a : Action τ α}
    (ha : Keeps Q a) (hpart : ∀ s, P s → Q (part s))
    (hreplace : ∀ s t, P s → Q t → P (replace t s)) : Keeps P (onPart part replace a) :=
  fun s hs => hreplace s _ hs (ha _ (hpart s hs))

theorem Keeps.forM {f : β → Action σ Unit} {l : List β} (h : ∀ b ∈ l, Keeps P (f b)) :
    Keeps P (l.forM f) := by
  induction l with
  | nil => exact keeps_pure ()
  | cons b rest ih =>
      exact (h b List.mem_cons_self).bind fun _ => ih fun b' hb' => h b' (List.mem_cons_of_mem _ hb')

/-!
## Actions that match
-/

/-- From related states the two actions end in the same way, in related states again. -/
def Matches (R : σ → τ → Prop) (a : Action σ α) (b : Action τ α) : Prop :=
  ∀ s t, R s t → (a.perform s).1 = (b.perform t).1 ∧ R (a.perform s).2 (b.perform t).2

variable {R : σ → τ → Prop}

theorem matches_pure (a : α) : Matches R (pure a) (pure a) := fun _ _ h => ⟨rfl, h⟩

theorem matches_ofOutcome (r : Outcome α) : Matches R (ofOutcome r) (ofOutcome r) :=
  fun _ _ h => ⟨rfl, h⟩

theorem Matches.bind {a : Action σ α} {b : Action τ α} {f : α → Action σ β} {g : α → Action τ β}
    (hab : Matches R a b) (hfg : ∀ x, Matches R (f x) (g x)) : Matches R (a >>= f) (b >>= g) := by
  intro s t hst
  have h := hab s t hst
  rw [perform_bind, perform_bind]
  rcases ha : a.perform s with ⟨r, s'⟩
  rcases hb : b.perform t with ⟨r', t'⟩
  rw [ha, hb] at h
  rcases h with ⟨heq, hrel⟩
  dsimp only at heq hrel
  rw [← heq]
  cases r with
  | error e => exact ⟨rfl, hrel⟩
  | ok x => exact hfg x s' t' hrel

theorem Matches.forM {f : β → Action σ Unit} {g : β → Action τ Unit}
    (h : ∀ x, Matches R (f x) (g x)) (l : List β) : Matches R (l.forM f) (l.forM g) := by
  induction l with
  | nil => exact matches_pure ()
  | cons x rest ih => exact (h x).bind fun _ => ih

/-- Perform actions one after the other, those after a failure too: how each of them ends, and
the state they leave. -/
def performAll : List (Action σ α) → σ → List (Outcome α) × σ
  | [], s => ([], s)
  | a :: rest, s =>
      let (r, s) := a.perform s
      let (rs, s) := performAll rest s
      (r :: rs, s)

theorem performAll_cons (a : Action σ α) (rest : List (Action σ α)) (s : σ) :
    performAll (a :: rest) s =
      ((a.perform s).1 :: (performAll rest (a.perform s).2).1,
        (performAll rest (a.perform s).2).2) := rfl

theorem keeps_performAll {P : σ → Prop} {l : List (Action σ α)} (h : ∀ a ∈ l, Keeps P a) {s : σ}
    (hs : P s) : P (performAll l s).2 := by
  induction l generalizing s with
  | nil => exact hs
  | cons a rest ih =>
      rw [performAll_cons]
      exact ih (fun b hb => h b (List.mem_cons_of_mem _ hb)) (h a List.mem_cons_self s hs)

/-- Sequences whose actions match one by one end alike, in related states again. -/
theorem performAll_of_matches {f : β → Action σ α} {g : β → Action τ α} {l : List β}
    (h : ∀ x ∈ l, Matches R (f x) (g x)) {s : σ} {t : τ} (hst : R s t) :
    (performAll (l.map f) s).1 = (performAll (l.map g) t).1 ∧
      R (performAll (l.map f) s).2 (performAll (l.map g) t).2 := by
  induction l generalizing s t with
  | nil => exact ⟨rfl, hst⟩
  | cons x rest ih =>
      rcases h x List.mem_cons_self s t hst with ⟨hends, hrel⟩
      rcases ih (fun y hy => h y (List.mem_cons_of_mem _ hy)) hrel with ⟨hrest, hrel'⟩
      rw [List.map_cons, List.map_cons, performAll_cons, performAll_cons, hends, hrest]
      exact ⟨rfl, hrel'⟩

theorem finalState_eq_ok_iff {a : Action σ α} {s s' : σ} :
    a.finalState s = .ok s' ↔ ∃ r, a.perform s = (.ok r, s') := by
  unfold finalState
  rcases a.perform s with ⟨r, s''⟩
  cases r <;> simp

end Action

end RelationalDb
