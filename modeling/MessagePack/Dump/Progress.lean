import MessagePack.Dump.Printer

/-! Every step of a printer that does not end it reads a byte at least or takes weight
off the tasks, so that printing comes to an end. -/
namespace MessagePack

theorem Unpacker.supply_currentExt [Inlet σ] (read : ByteOrder → List UInt8 → Except Fault α)
    (unpacker : Unpacker σ) : (unpacker.currentExt read).2.supply = unpacker.supply := by
  unfold currentExt attempt
  split
  · rfl
  · dsimp only
    rw [supply_settle]
    split <;> rfl

namespace Dump.Printer

def supply (printer : Printer) : Nat := printer.input.supply

@[simp] theorem input_write (printer : Printer) (text : List UInt8) :
    (printer.write text).2.input = printer.input := by
  unfold write
  split <;> rfl

@[simp] theorem tasks_write (printer : Printer) (text : List UInt8) :
    (printer.write text).2.tasks = printer.tasks := by
  unfold write
  split <;> rfl

@[simp] theorem supply_write (printer : Printer) (text : List UInt8) :
    (printer.write text).2.supply = printer.supply := by simp [supply]

@[simp] theorem weight_write (printer : Printer) (text : List UInt8) :
    (printer.write text).2.weight = printer.weight := by simp [weight]

@[simp] theorem supply_push (printer : Printer) (task : Task) :
    (printer.push task).supply = printer.supply := rfl

@[simp] theorem weight_push (printer : Printer) (task : Task) :
    (printer.push task).weight = task.weight + printer.weight := by simp [weight, push]

theorem supply_printItem (level : Nat) (item : Item) (printer : Printer) :
    (printer.printItem level item).2.supply = printer.supply := by
  unfold printItem
  split <;> simp

theorem supply_current_le (level : Nat) (printer : Printer) :
    (printer.current level).2.supply ≤ printer.supply := by
  unfold current
  split
  · exact Nat.le_of_eq (supply_printItem ..)
  · exact Nat.le_refl _

theorem supply_thenWrite_le {printer : Printer} {text : List UInt8} {next : Printer → Answer}
    (h : ∀ after : Printer, (next after).2.supply ≤ after.supply) :
    (printer.thenWrite text next).2.supply ≤ printer.supply := by
  have written := supply_write printer text
  unfold thenWrite
  split <;> rename_i w <;> rw [w] at written
  · exact Nat.le_of_eq written
  · exact Nat.le_trans (h _) (Nat.le_of_eq written)

theorem supply_withInput_le {printer : Printer} {read : Except Fault α × Unpacker Source}
    {next : α → Printer → Answer} (fewer : read.2.supply ≤ printer.supply)
    (h : ∀ value (after : Printer), (next value after).2.supply ≤ after.supply) :
    (printer.withInput read next).2.supply ≤ printer.supply := by
  unfold withInput
  split
  · exact fewer
  · exact Nat.le_trans (h _ _) fewer

theorem supply_withNext_lt {printer after : Printer} {next : Printer → Answer}
    (h : ∀ between : Printer, (next between).2.supply ≤ between.supply)
    (done : printer.withInput printer.input.next (fun _ => next) = (.ok (), after)) :
    after.supply < printer.supply := by
  unfold withInput at done
  split at done
  · cases done
  · rename_i item input read
    have fewer : input.supply < printer.supply := Unpacker.supply_next_lt read
    have rest := h { printer with input }
    dsimp only at done
    rw [done] at rest
    exact Nat.lt_of_le_of_lt rest fewer

theorem supply_printName_le (size level : Nat) (printer : Printer) :
    (printer.printName size level).2.supply ≤ printer.supply := by
  unfold printName
  split <;> simp

theorem supply_printRecord_le (size level : Nat) (printer : Printer) :
    (printer.printRecord size level).2.supply ≤ printer.supply := by
  refine supply_withInput_le (Nat.le_of_eq (Unpacker.supply_currentExt _ _)) fun label between => ?_
  dsimp only
  split
  · simp
  · refine supply_thenWrite_le fun after => ?_
    split
    · simp
    · split <;> simp

theorem supply_printFirst_le (options : Options) (size offset level : Nat) (printer : Printer) :
    (printer.printFirst options size offset level).2.supply ≤ printer.supply := by
  have array : ((printer.push (.elements (size - 1) 1 level ']')).thenWrite
      (ascii ['['] ++ options.separate offset (level + 1) 0)
      (current (level + 1))).2.supply ≤ printer.supply :=
    supply_thenWrite_le (supply_current_le _)
  unfold printFirst
  dsimp only
  split
  · split
    · exact supply_printRecord_le size level printer
    · exact array
  · exact array

theorem perform_progress {options : Options} {task : Task} {printer after : Printer}
    (h : printer.perform options task = (.ok (), after)) :
    after.supply < printer.supply ∨
      after.supply = printer.supply ∧ after.weight < task.weight + printer.weight := by
  cases task with
  | item level => exact .inl (supply_withNext_lt (supply_current_le level) h)
  | first size offset level =>
    exact .inl (supply_withNext_lt (supply_printFirst_le options size offset level) h)
  | name size level => exact .inl (supply_withNext_lt (supply_printName_le size level) h)
  | colon =>
    have := congrArg (fun answer : Answer => (answer.2.supply, answer.2.weight)) h
    simp [perform, Task.weight] at this ⊢
    omega
  | elements left index level bracket =>
    have := congrArg (fun answer : Answer => (answer.2.supply, answer.2.weight)) h
    cases left <;> simp [perform, Task.weight] at this ⊢ <;> omega
  | entries left index level =>
    have := congrArg (fun answer : Answer => (answer.2.supply, answer.2.weight)) h
    cases left <;> simp [perform, Task.weight] at this ⊢ <;> omega

theorem step_progress {options : Options} {printer after : Printer}
    (h : printer.step options = (.ok (), after)) :
    after.supply < printer.supply ∨
      after.supply = printer.supply ∧ after.weight < printer.weight := by
  unfold step at h
  split at h
  · unfold thenWrite at h
    have same := supply_write printer (options.newLine printer.offset 0)
    split at h <;> rename_i w
    · cases h
    · rw [w] at same
      refine .inl (same ▸ supply_withNext_lt (supply_current_le 0) h)
  · rename_i task tasks same
    have progress := perform_progress h
    simp only [supply, weight, same, List.foldr_cons] at progress ⊢
    exact progress

end Dump.Printer
end MessagePack
