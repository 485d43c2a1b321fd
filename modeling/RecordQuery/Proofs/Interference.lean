import RecordQuery.Proofs.Contracts

/-!
Scripts among other scripts. Between two calls of a script the world may change, in ways that a
protocol allows; what a call is admitted for depends on the world then (`Script.Meets`). The rules
follow the combinators, as those for contracts do, and a script that makes certain calls only
(`Script.Ensures`) keeps whatever these calls and the others keep (`Script.Ensures.meets`).
-/
namespace RecordQuery

/-- What a script counts on between its calls, and which calls it may make then. -/
structure Protocol where
  rely : World → World → Prop
  admits : Call → World → Prop

namespace Script
variable {α β : Type} {p : Protocol}

/-- However the world changes between the calls, each call is admitted and the end is right. -/
def Meets (p : Protocol) (post : α → World → Prop) : Script α → World → Prop
  | done a, w => post a w
  | call c next, w => ∀ v, p.rely w v →
      p.admits c v ∧ (next (v.answer c).1).Meets p post (v.answer c).2

theorem Meets.mono {post weaker : α → World → Prop} {s : Script α} {w : World}
    (meets : s.Meets p post w) (implies : ∀ a v, post a v → weaker a v) : s.Meets p weaker w := by
  induction s generalizing w with
  | done a => exact implies a w meets
  | call c next ih =>
    intro v changed
    obtain ⟨admitted, rest⟩ := meets v changed
    exact ⟨admitted, ih _ rest⟩

theorem Meets.and {first second : α → World → Prop} {s : Script α} {w : World}
    (meets : s.Meets p first w) (also : s.Meets p second w) :
    s.Meets p (fun a v => first a v ∧ second a v) w := by
  induction s generalizing w with
  | done a => exact ⟨meets, also⟩
  | call c next ih =>
    intro v changed
    obtain ⟨admitted, rest⟩ := meets v changed
    exact ⟨admitted, ih _ rest (also v changed).2⟩

theorem Meets.bind {mid : α → World → Prop} {post : β → World → Prop} {s : Script α}
    {f : α → Script β} {w : World} (first : s.Meets p mid w)
    (second : ∀ a v, mid a v → (f a).Meets p post v) : (s.bind f).Meets p post w := by
  induction s generalizing w with
  | done a => exact second a w first
  | call c next ih =>
    intro v changed
    obtain ⟨admitted, rest⟩ := first v changed
    exact ⟨admitted, ih _ rest⟩

/-- Changes before the first call make no difference. -/
theorem Meets.changed {post : α → World → Prop} {s : Script α} {w v : World}
    (meets : s.Meets p post w) (trans : ∀ u, p.rely v u → p.rely w u)
    (stable : ∀ a, post a w → post a v) : s.Meets p post v := by
  cases s with
  | done a => exact stable a meets
  | call c next => exact fun u later => meets u (trans u later)

theorem Ensures.meets {calls : Call → Prop} {post : α → Prop} {s : Script α}
    (ensures : s.Ensures calls post) (Holds : World → Prop)
    (step : ∀ c w v, calls c → Holds w → p.rely w v → p.admits c v ∧ Holds (v.answer c).2)
    {w : World} (start : Holds w) : s.Meets p (fun a v => post a ∧ Holds v) w := by
  induction s generalizing w with
  | done a => exact ⟨ensures, start⟩
  | call c next ih =>
    intro v changed
    obtain ⟨admitted, kept⟩ := step c w v ensures.1 start changed
    exact ⟨admitted, ih _ (ensures.2 _) kept⟩

end Script

namespace Exec
variable {α β : Type} {p : Protocol}

/-- Started with some errors in some world, the computation makes admitted calls only and adds
errors behind those. What it yields, unless a failure stops it, has a property with the errors and
the world then. -/
def Meets (p : Protocol) (post : α → List ValidationError → World → Prop) (x : Exec α)
    (errors : List ValidationError) (w : World) : Prop :=
  Script.Meets p (fun out v => errors <+: out.2 ∧ ∀ a, out.1 = .ok a → post a out.2 v) (x errors) w

variable {post : α → List ValidationError → World → Prop} {errors : List ValidationError}
  {w : World}

theorem Meets.mono {weaker : α → List ValidationError → World → Prop} {x : Exec α}
    (meets : x.Meets p post errors w)
    (implies : ∀ a later v, errors <+: later → post a later v → weaker a later v) :
    x.Meets p weaker errors w :=
  Script.Meets.mono meets fun out v found =>
    ⟨found.1, fun a yields => implies a out.2 v found.1 (found.2 a yields)⟩

theorem Meets.and {more : α → List ValidationError → World → Prop} {x : Exec α}
    (meets : x.Meets p post errors w) (also : x.Meets p more errors w) :
    x.Meets p (fun a later v => post a later v ∧ more a later v) errors w :=
  (Script.Meets.and meets also).mono fun _ _ found =>
    ⟨found.1.1, fun a yields => ⟨found.1.2 a yields, found.2.2 a yields⟩⟩

theorem meets_pure {a : α} (holds : post a errors w) : Meets p post (pure a) errors w := by
  refine ⟨List.prefix_refl errors, ?_⟩
  rintro b ⟨⟩
  exact holds

theorem Meets.bind {mid : α → List ValidationError → World → Prop}
    {post : β → List ValidationError → World → Prop} {x : Exec α} {f : α → Exec β}
    (first : x.Meets p mid errors w)
    (second : ∀ a later v, errors <+: later → mid a later v → (f a).Meets p post later v) :
    Meets p post (x >>= f) errors w := by
  rw [Meets, bind_apply]
  refine Script.Meets.bind first ?_
  rintro ⟨reply, later⟩ v ⟨grown, holds⟩
  cases reply with
  | error failure => exact ⟨grown, by simp⟩
  | ok a =>
    refine Script.Meets.mono (second a later v grown (holds a rfl)) ?_
    exact fun out u found => ⟨grown.trans found.1, found.2⟩

/-- What only adds errors leaves the world as it is. -/
theorem meets_log {x : Log α} (grows : x.Extends) (errors : List ValidationError) (w : World) :
    (log x).Meets p (fun a later v => x.run errors = (a, later) ∧ v = w) errors w := by
  refine ⟨grows errors, ?_⟩
  rintro a ⟨⟩
  exact ⟨rfl, rfl⟩

/-- What is yielded after an error has been reported. -/
theorem meets_reported {e : ValidationError} {a : α} (holds : post a (errors ++ [e]) w) :
    Meets p post (do log (Log.report e); return a) errors w := by
  refine (meets_log (Log.extends_report e) errors w).bind ?_
  rintro _ later v - ⟨reported, rfl⟩
  obtain ⟨-, rfl⟩ := Prod.mk.inj reported
  exact meets_pure holds

theorem meets_script {s : Script α} (meets : s.Meets p (fun a v => post a errors v) w) :
    (script s).Meets p post errors w := by
  refine Script.Meets.bind meets fun a v holds => ⟨List.prefix_refl errors, ?_⟩
  rintro b ⟨⟩
  exact holds

theorem meets_attempt {s : Script (Except Failure α)}
    (meets : s.Meets p (fun reply v => ∀ a, reply = .ok a → post a errors v) w) :
    (attempt s).Meets p post errors w :=
  Script.Meets.bind meets fun _ _ holds => ⟨List.prefix_refl errors, holds⟩

theorem Ensures.meets {calls : Call → Prop} {post : α → List ValidationError → Prop} {x : Exec α}
    (ensures : x.Ensures calls post errors) (Holds : World → Prop)
    (step : ∀ c w v, calls c → Holds w → p.rely w v → p.admits c v ∧ Holds (v.answer c).2)
    (start : Holds w) : x.Meets p (fun a later v => post a later ∧ Holds v) errors w :=
  (Script.Ensures.meets ensures Holds step start).mono fun _ _ found =>
    ⟨found.1.1, fun a yields => ⟨found.1.2 a yields, found.2⟩⟩

end Exec
end RecordQuery
