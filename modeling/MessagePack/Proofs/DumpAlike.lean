import MessagePack.Proofs.UnmarkedStream
import MessagePack.Proofs.DumpScripts

/-! Dumps of inputs that answer alike. Whatever the items come from, the same answers lead to the
same texts and the same end. A stream that delivers answers as a reading of its bytes does, so
that its dump does not show the pace, and can be computed from the bytes. -/
namespace MessagePack

instance : Readable Reading where
  next := Reading.next
  offset := Reading.position

/-- Inputs that are tied answer alike, and stay tied. -/
structure Readable.Alike [Readable ι] [Readable κ] (tied : ι → κ → Prop) : Prop where
  offset : ∀ {input other}, tied input other →
    Readable.offset other = Readable.offset input
  next : ∀ {input other}, tied input other →
    (Readable.next other).1 = (Readable.next input).1 ∧
      tied (Readable.next input).2 (Readable.next other).2

theorem Unpacker.alike_traces :
    Readable.Alike fun (reading : Reading) (unpacker : Unpacker Source) =>
      unpacker.Traces reading where
  offset traces := traces.offset
  next traces := traces.next

theorem Unpacker.alike_both :
    Readable.Alike fun (unpacker other : Unpacker Source) =>
      ∃ reading, unpacker.Traces reading ∧ other.Traces reading where
  offset := fun ⟨_, traces, also⟩ => also.offset.trans traces.offset.symm
  next := fun ⟨_, traces, also⟩ =>
    ⟨also.next.1.trans traces.next.1.symm, _, traces.next.2, also.next.2⟩

namespace Dump

section

variable [Readable ι] [Readable κ] {tied : ι → κ → Prop} {options : Options} {stage : Stage ι}
  {twin : Stage κ}

/-- The same is left to do, and the inputs are tied. -/
structure Stage.Tied (tied : ι → κ → Prop) (stage : Stage ι) (twin : Stage κ) : Prop where
  tasks : twin.tasks = stage.tasks
  input : tied stage.input twin.input

/-- The same texts, which lead to the same end or to stages that are tied. -/
def Effect.Tied (tied : ι → κ → Prop) (effect : Effect ι) (other : Effect κ) : Prop :=
  other.texts = effect.texts ∧
    match effect.outcome, other.outcome with
    | .error fault, .error reason => reason = fault
    | .ok stage, .ok twin => stage.Tied tied twin
    | _, _ => False

omit [Readable ι] [Readable κ] in
theorem Stage.Tied.withTasks (both : stage.Tied tied twin) (tasks : List Task) :
    ({ stage with tasks } : Stage ι).Tied tied { twin with tasks } := ⟨rfl, both.input⟩

theorem Script.tied_play (alike : Readable.Alike tied) (script : Script)
    (both : stage.Tied tied twin) : (script.play stage).Tied tied (script.play twin) := by
  induction script generalizing stage twin with
  | stop fault => exact ⟨rfl, rfl⟩
  | done => exact ⟨rfl, both⟩
  | push task script ih =>
    refine ih ?_
    rw [Stage.push, Stage.push, both.tasks]
    exact both.withTasks _
  | write text script ih =>
    obtain ⟨texts, outcome⟩ := ih both
    exact ⟨congrArg (text :: ·) texts, outcome⟩
  | read script ih =>
    obtain ⟨answer, goesOn⟩ := alike.next both.input
    cases result : (Readable.next stage.input).1 with
    | error fault =>
      rw [play_read_of_error result, play_read_of_error (answer.trans result)]
      exact ⟨rfl, rfl⟩
    | ok item =>
      rw [play_read_of_ok (Prod.ext result rfl),
        play_read_of_ok (Prod.ext (answer.trans result) rfl), alike.offset goesOn]
      exact ih _ _ ⟨both.tasks, goesOn⟩

theorem Stage.Tied.effect (alike : Readable.Alike tied) (both : stage.Tied tied twin)
    (options : Options) : (stage.effect options).Tied tied (twin.effect options) := by
  have offset : twin.offset = stage.offset := alike.offset both.input
  unfold Stage.effect
  rw [both.tasks, offset]
  split
  · exact Script.tied_play alike _ both
  · exact Script.tied_play alike _ (both.withTasks _)

theorem Stage.Tied.name? (alike : Readable.Alike tied) (both : stage.Tied tied twin) :
    twin.name? = stage.name? := by
  rw [Stage.name?, Stage.name?, both.tasks, (alike.next both.input).1]

/-- Tied stages take the same course. -/
theorem Course.along (alike : Readable.Alike tied) {stages : List (Stage ι)} {fault : Fault}
    (course : Course options stage stages fault) (both : stage.Tied tied twin) :
    ∃ twins, Course options twin twins fault ∧ List.Forall₂ (Stage.Tied tied) stages twins := by
  induction course generalizing twin with
  | last stops =>
    obtain ⟨_, outcome⟩ := both.effect alike options
    rw [stops] at outcome
    cases ends : (twin.effect options).outcome with
    | ok next =>
      rw [ends] at outcome
      cases outcome
    | error reason =>
      rw [ends] at outcome
      obtain rfl : reason = _ := outcome
      exact ⟨[twin], .last ends, .cons both .nil⟩
  | step leads rest ih =>
    obtain ⟨_, outcome⟩ := both.effect alike options
    rw [leads] at outcome
    cases goesOn : (twin.effect options).outcome with
    | error reason =>
      rw [goesOn] at outcome
      cases outcome
    | ok next =>
      rw [goesOn] at outcome
      obtain ⟨twins, also, pairs⟩ := ih outcome
      exact ⟨twin :: twins, .step goesOn also, .cons both pairs⟩

section

variable {stages : List (Stage ι)} {twins : List (Stage κ)}

theorem texts_tied (alike : Readable.Alike tied)
    (pairs : List.Forall₂ (Stage.Tied tied) stages twins) (options : Options) :
    texts options twins = texts options stages := by
  induction pairs with
  | nil => rfl
  | cons both _ ih =>
    rw [texts, texts] at ih ⊢
    rw [List.flatMap_cons, List.flatMap_cons, ih, (both.effect alike options).1]

theorem starts_tied (alike : Readable.Alike tied)
    (pairs : List.Forall₂ (Stage.Tied tied) stages twins) : starts twins = starts stages := by
  induction pairs with
  | nil => rfl
  | @cons stage twin _ _ both _ ih =>
    have offset : twin.offset = stage.offset := alike.offset both.input
    rw [starts, starts] at ih ⊢
    rw [List.filter_cons, List.filter_cons, both.tasks]
    split
    · rw [List.map_cons, List.map_cons, ih, offset]
    · exact ih

theorem names_tied (alike : Readable.Alike tied)
    (pairs : List.Forall₂ (Stage.Tied tied) stages twins) : names twins = names stages := by
  induction pairs with
  | nil => rfl
  | cons both _ ih =>
    rw [names, names] at ih ⊢
    rw [List.filterMap_cons, List.filterMap_cons, both.name? alike, ih]

end

theorem Course.unique {stages others : List (Stage ι)} {fault reason : Fault}
    (course : Course options stage stages fault) (other : Course options stage others reason) :
    others = stages ∧ reason = fault := by
  induction course generalizing others with
  | last stops =>
    cases other with
    | last ends =>
      cases stops.symm.trans ends
      exact ⟨rfl, rfl⟩
    | step goesOn _ => cases stops.symm.trans goesOn
  | step leads _ ih =>
    cases other with
    | last ends => cases leads.symm.trans ends
    | step goesOn rest =>
      cases leads.symm.trans goesOn
      obtain ⟨rfl, same⟩ := ih rest
      exact ⟨rfl, same⟩

def Stage.course? (options : Options) : (fuel : Nat) → Stage ι → Option (List (Stage ι) × Fault)
  | 0, _ => none
  | fuel + 1, stage =>
    match (stage.effect options).outcome with
    | .error fault => some ([stage], fault)
    | .ok next =>
      match next.course? options fuel with
      | none => none
      | some (stages, fault) => some (stage :: stages, fault)

theorem course_of_eq_some {fuel : Nat} {stages : List (Stage ι)} {fault : Fault}
    (found : stage.course? options fuel = some (stages, fault)) :
    Course options stage stages fault := by
  induction fuel generalizing stage stages with
  | zero => cases found
  | succ fuel ih =>
    rw [Stage.course?] at found
    split at found
    · cases found
      exact .last ‹_›
    · rename_i next leads
      split at found
      · cases found
      · cases found
        exact .step leads (ih ‹_›)

end

/-! ### Printouts -/

/-- What a dump comes to. -/
structure Printout where
  fault : Fault
  text : List UInt8
  starts : List Nat
  names : List (List UInt8)
  deriving DecidableEq, Repr

/-- The dump of a stream that brings `bytes`, if it takes no more than `fuel` steps. -/
def printout? (options : Options) (bytes : List UInt8) (ending : Fault) (fuel : Nat) :
    Option Printout :=
  (Stage.course? options fuel ⟨Reading.start bytes ending .native, []⟩).map fun course =>
    ⟨course.2, (texts options course.1).flatten ++ closing course.2, starts course.1,
      names course.1⟩

theorem dump_of_printout {options : Options} {input : Input} {ending : Fault} {fuel : Nat}
    {printout : Printout} (printed : printout? options input.pending ending fuel = some printout)
    (delivers : input.Delivers ending) {output : Output} (accepts : output.Accepts) :
    (dump input output options).1 = .ok printout.fault ∧
      (dump input output options).2.received.toList =
        output.received.toList ++ printout.text ∧
      lineStarts input output options = printout.starts ∧
      recordNames input output options = printout.names := by
  obtain ⟨⟨stages, fault⟩, found, rfl⟩ := Option.map_eq_some_iff.mp printed
  have traces := Unpacker.traces_ofInput delivers (by decide : inputCapacity < _) .native
  have both : Stage.Tied (fun (reading : Reading) (unpacker : Unpacker Source) =>
      unpacker.Traces reading) ⟨.start input.pending ending .native, []⟩ (.start input) :=
    ⟨rfl, traces⟩
  obtain ⟨twins, course, pairs⟩ := (course_of_eq_some found).along Unpacker.alike_traces both
  obtain ⟨reason, own⟩ := course_dump input accepts options
  obtain ⟨same, rfl⟩ := course.unique own
  obtain ⟨code, text⟩ := dump_of_accepts accepts course
  refine ⟨code, ?_, ?_, ?_⟩
  · rw [text, texts_tied Unpacker.alike_traces pairs]
  · rw [lineStarts, same, starts_tied Unpacker.alike_traces pairs]
  · rw [recordNames, same, names_tied Unpacker.alike_traces pairs]

end Dump
end MessagePack
