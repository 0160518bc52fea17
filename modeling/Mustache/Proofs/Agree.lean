import Mustache.Proofs.Simulation

/-!
This module contains the agreement of two runs in all that is seen from outside: the output, the
callouts and how they end. How the output is put together, and what was looked up for it, may differ.
-/

namespace Mustache

namespace Event

def isCall (event : Event) : Bool :=
  match event with
  | called .. => true
  | _ => false

/-- Neither outputs nor calls anything. -/
structure Silent (event : Event) : Prop where
  output : event.output = []
  isCall : event.isCall = false

end Event

namespace Run

def callouts (run : Run) : List Event :=
  run.events.filter Event.isCall

structure Agrees (run run' : Run) : Prop where
  output : run.output = run'.output
  callouts : run.callouts = run'.callouts
  failure : run.failure = run'.failure

namespace Agrees

variable {run run' run'' : Run}

theorem refl (run : Run) : run.Agrees run := ⟨rfl, rfl, rfl⟩

theorem symm (h : run.Agrees run') : run'.Agrees run :=
  ⟨h.output.symm, h.callouts.symm, h.failure.symm⟩

theorem trans (h : run.Agrees run') (h' : run'.Agrees run'') : run.Agrees run'' :=
  ⟨h.output.trans h'.output, h.callouts.trans h'.callouts, h.failure.trans h'.failure⟩

theorem andThen {first first' : Run} {second second' : Unit → Run} (hfirst : first.Agrees first')
    (hsecond : (second ()).Agrees (second' ()))
    : (first.andThen second).Agrees (first'.andThen second') := by
  cases andThen_alike second second' hfirst.failure with
  | inl hends =>
    rw [hends.1, hends.2]
    exact hfirst
  | inr hgoes =>
    rw [hgoes.1, hgoes.2]
    have houtput := hfirst.output
    have houtput' := hsecond.output
    have hcallouts := hfirst.callouts
    have hcallouts' := hsecond.callouts
    unfold Run.output at houtput houtput'
    unfold Run.callouts at hcallouts hcallouts'
    constructor
    . unfold Run.output
      rw [List.flatMap_append, List.flatMap_append, houtput, houtput']
    . unfold Run.callouts
      rw [List.filter_append, List.filter_append, hcallouts, hcallouts']
    . exact hsecond.failure

theorem congruence : Congruence Agrees where
  done := refl _
  fail _ := refl _
  andThen := andThen

theorem emit_andThen_of_silent {event : Event} (h : event.Silent) (second : Unit → Run)
    : ((emit event).andThen second).Agrees (second ()) := by
  rw [emit_andThen]
  constructor
  . unfold Run.output
    rw [List.flatMap_cons, h.output]
    rfl
  . unfold Run.callouts
    rw [List.filter_cons_of_neg]
    rw [h.isCall]
    simp
  . rfl

theorem emit_of_silent {event : Event} (h : event.Silent) : (emit event).Agrees done := by
  have := emit_andThen_of_silent h fun _ => done
  rwa [andThen_done] at this

theorem emit_append {event first second : Event} (houtput : event.output = first.output ++ second.output)
    (hcall : event.isCall = false) (hfirst : first.isCall = false) (hsecond : second.isCall = false)
    : (emit event).Agrees ((emit first).andThen fun _ => emit second) := by
  rw [emit_andThen]
  constructor
  . simp [Run.output, emit, houtput]
  . simp [Run.callouts, emit, hcall, hfirst, hsecond]
  . rfl

end Agrees

end Run

end Mustache
