import Mathlib.Tactic
import Qubo.Random.Draw

/-! Draws that are repeated: how many results they give, and what holds of each of them. -/
namespace Qubo.Random.Draw
variable {β : Type} {draw : Draw β}

@[simp] theorem length_many (draw : Draw β) (n : ℕ) (g : Generator) :
    (many draw n g).1.length = n := by
  induction n generalizing g with
  | zero => rfl
  | succ n ih => exact congrArg (· + 1) (ih (draw g).2)

theorem forall_mem_many {P : β → Prop} (h : ∀ g, P (draw g).1) (n : ℕ) (g : Generator) :
    ∀ x ∈ (many draw n g).1, P x := by
  induction n generalizing g with
  | zero => simp [many]
  | succ n ih =>
    intro x hx
    rcases List.mem_cons.mp hx with rfl | hx
    · exact h g
    · exact ih (draw g).2 x hx

/-- The generator when a draw has been made `k` times. -/
def after (draw : Draw β) (k : ℕ) (g : Generator) : Generator := (fun g => (draw g).2)^[k] g

/-- What is drawn by one of several draws, numbered from zero. -/
def numbered (draw : Draw β) (k : ℕ) (g : Generator) : β := (draw (after draw k g)).1

theorem after_succ (draw : Draw β) (k : ℕ) (g : Generator) :
    after draw (k + 1) g = (draw (after draw k g)).2 := Function.iterate_succ_apply' _ k g

theorem after_after (draw : Draw β) (j k : ℕ) (g : Generator) :
    after draw k (after draw j g) = after draw (j + k) g := by
  rw [add_comm]
  exact (Function.iterate_add_apply _ k j g).symm

theorem numbered_after (draw : Draw β) (j k : ℕ) (g : Generator) :
    numbered draw k (after draw j g) = numbered draw (j + k) g := by
  rw [numbered, after_after, numbered]

/-- Each of several draws continues where the one before it has ended. -/
theorem many_eq (draw : Draw β) (n : ℕ) (g : Generator) :
    many draw n g = ((List.range n).map fun i => numbered draw i g, after draw n g) := by
  induction n generalizing g with
  | zero => rfl
  | succ n ih =>
    have hmany : many draw (n + 1) g =
        ((draw g).1 :: (many draw n (draw g).2).1, (many draw n (draw g).2).2) := rfl
    rw [hmany, ih, List.range_succ_eq_map, List.map_cons, List.map_map]
    rfl

theorem getD_many (draw : Draw β) {n i : ℕ} (hi : i < n) (g : Generator) (x : β) :
    (many draw n g).1.toArray.getD i x = numbered draw i g := by
  rw [many_eq, Array.getD_eq_getD_getElem?, List.getElem?_toArray, List.getElem?_map,
    List.getElem?_range hi]
  rfl

/-- The high half of the product of a word and `n` is a number below `n`. -/
private theorem high_lt {n : ℕ} (hn : 0 < n) (v : UInt64) : v.toNat * n / UInt64.size < n := by
  refine Nat.div_lt_of_lt_mul ?_
  exact Nat.mul_lt_mul_of_pos_right v.toNat_lt hn

theorem below_lt {n : ℕ} (hn : 0 < n) (g : Generator) : (below n g).1 < n := by
  suffices h : ∀ zone k g, (belowFrom n zone k g).1 < n from h _ _ g
  intro zone k
  induction k with
  | zero => exact fun g => high_lt hn (word g).1
  | succ k ih =>
    intro g
    show (if (word g).1.toNat * n % UInt64.size ≤ zone then
      ((word g).1.toNat * n / UInt64.size, (word g).2) else belowFrom n zone k (word g).2).1 < n
    split_ifs
    · exact high_lt hn _
    · exact ih _

end Qubo.Random.Draw
