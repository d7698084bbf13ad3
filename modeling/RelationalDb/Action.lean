import RelationalDb.Failure

/-!
# Changes of a state that can fail

An action works on a state and ends with a result or a failure.  What it changed before
a failure stays changed: that a failed action leaves no trace is never a consequence of
its type and has to be shown.
-/

namespace RelationalDb

/-- A change of a state that ends with a result or a failure. -/
abbrev Action (σ α : Type) := ExceptT Failure (StateM σ) α

namespace Action

variable {σ τ α : Type}

def perform (a : Action σ α) (s : σ) : Outcome α × σ :=
  (a.run).run s

def ofFunction (f : σ → Outcome α × σ) : Action σ α :=
  ExceptT.mk (StateT.mk f)

def ofOutcome (r : Outcome α) : Action σ α :=
  ofFunction fun s => (r, s)

def attempt (a : Action σ α) : Action σ (Outcome α) :=
  ofFunction fun s =>
    let (r, s) := a.perform s
    (.ok r, s)

def onPart (part : σ → τ) (replace : τ → σ → σ) (a : Action τ α) : Action σ α :=
  ofFunction fun s =>
    let (r, t) := a.perform (part s)
    (r, replace t s)

def onEach (a : Action σ Unit) : Action (List σ) Unit :=
  ofFunction go
where
  go : List σ → Outcome Unit × List σ
  | [] => (.ok (), [])
  | s :: rest =>
      match a.perform s with
      | (.error f, s) => (.error f, s :: rest)
      | (.ok (), s) =>
          let (r, rest) := go rest
          (r, s :: rest)

def finalState (a : Action σ α) (s : σ) : Outcome σ :=
  match a.perform s with
  | (.ok _, s) => .ok s
  | (.error f, _) => .error f

end Action

end RelationalDb
