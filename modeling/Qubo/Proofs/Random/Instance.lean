import Mathlib.Tactic
import Qubo.Proofs.Float.Coefficient
import Qubo.Proofs.Matrix.Mirrored
import Qubo.Proofs.Solvable

/-! Random problems, drawn one coefficient after another: how many draws they take, and which of
them ends up where. -/
namespace Qubo.Random
open Checked (Fault)

section Triangle
variable {n r c : ℕ}

/-- What the rows before a row leave out, below the diagonal, twice. -/
theorem two_mul_triangle (r : ℕ) : 2 * (r * (r - 1) / 2) + r = r * r := by
  have hdouble : 2 * (r * (r - 1) / 2) = r * (r - 1) :=
    Nat.mul_div_cancel' (Nat.even_mul_pred_self r).two_dvd
  have hle := Nat.le_mul_self r
  rw [hdouble, Nat.mul_sub_one]
  omega

theorem triangleIndex_self (n : ℕ) : triangleIndex n n n = n * (n + 1) / 2 := by
  have hdouble := two_mul_triangle n
  have hnext : n * (n + 1) / 2 = n * (n - 1) / 2 + n := by
    rw [← Nat.triangle_succ, Nat.add_sub_cancel, mul_comm]
  rw [triangleIndex, hnext]
  omega

theorem triangleIndex_succ (h : r ≤ c) : triangleIndex n r (c + 1) = triangleIndex n r c + 1 := by
  unfold triangleIndex
  omega

theorem triangle_le (hr : r ≤ n) : r * (r - 1) / 2 ≤ r * n :=
  (Nat.div_le_self _ _).trans (Nat.mul_le_mul_left r ((Nat.sub_le r 1).trans hr))

/-- The draw after the last one of a row is the first one of the next. -/
theorem triangleIndex_row (hr : r < n) : triangleIndex n r n = triangleIndex n (r + 1) (r + 1) := by
  have hle := triangle_le hr.le
  have hnext := Nat.triangle_succ r
  have hrow : (r + 1) * n = r * n + n := Nat.succ_mul r n
  unfold triangleIndex
  omega

theorem triangleIndex_lt (hrc : r ≤ c) (hc : c < n) : triangleIndex n r c < n * (n + 1) / 2 := by
  obtain ⟨d, rfl⟩ := Nat.exists_eq_add_of_le hrc
  obtain ⟨e, rfl⟩ := Nat.exists_eq_add_of_lt hc
  have hle := triangle_le (n := r + d + e + 1) (r := r) (by omega)
  have hrow := two_mul_triangle r
  have hall := two_mul_triangle (r + d + e + 1 + 1)
  have hsquares : 2 * (r * (r + d + e + 1)) + 2 * d + (r + d + e + 1 + 1) + r <
      (r + d + e + 1 + 1) * (r + d + e + 1 + 1) + r * r := by nlinarith
  rw [Nat.add_sub_cancel, mul_comm (r + d + e + 1 + 1) (r + d + e + 1)] at hall
  unfold triangleIndex
  omega

end Triangle

section Loops
variable {α : Type} [Scalar α]

/-- Results of several draws in a list, if there is room for them. -/
def manyAt {β : Type} (draw : Draw β) (n : ℕ) (g : Generator) :
    Except Fault (List β × Generator) :=
  if n < Matrix.capacity then .ok (Draw.many draw n g) else .error .capacity

/-- Zeros, and over them the upper triangle row by row, with a draw for each position that is
written at the mirrored one too. -/
def symmetricAt (n : ℕ) (g : Generator) : Except Fault (Matrix α × Generator) := do
  let w ← Matrix.allocate n n
  Matrix.writeMirrored (fun _ _ g => .ok (Draw.coefficient g)) 0 n w g

/-- The biases of either layer, and the couplings row by row over zeros, with a draw for each. -/
def bipartiteAt (n0 n1 : ℕ) (g : Generator) :
    Except Fault (Bipartite.Coefficients α × Generator) := do
  let (b0, g) ← manyAt Draw.coefficient n0 g
  let (b1, g) ← manyAt Draw.coefficient n1 g
  let w ← Matrix.allocate n1 n0
  let (w, g) ← Matrix.writeRows (fun _ g => .ok (Draw.coefficient g)) n1 n0 w g
  return (⟨b0, b1, w⟩, g)

theorem symmetric_eq_generate (n : ℕ) (g : Generator) : symmetric n g =
    (.generate n n fun r c => Draw.numbered (Draw.coefficient (α := α))
      (triangleIndex n (min r c) (max r c)) g,
      Draw.after (Draw.coefficient (α := α)) (n * (n + 1) / 2) g) := by
  refine Prod.ext ?_ ?_
  · rw [symmetric_eq]
    dsimp only
    refine Matrix.generate_congr fun r hr c hc => ?_
    exact Draw.getD_many Draw.coefficient (triangleIndex_lt min_le_max (max_lt hr hc)) g _
  · show (Draw.many (Draw.coefficient (α := α)) _ g).2 = _
    rw [Draw.many_eq]

/-- With room for all its entries a matrix is drawn to the end. -/
theorem symmetricAt_eq (n : ℕ) (g : Generator) : symmetricAt (α := α) n g =
    if n * n < Matrix.capacity then .ok (symmetric n g) else .error .capacity := by
  unfold symmetricAt Matrix.allocate
  split_ifs with hroom
  swap
  · rfl
  have hnext (r c : ℕ) (hrc : r + 0 ≤ c) (_ : c < n) :
      Except.ok (ε := Fault) (Draw.coefficient (α := α)
        (Draw.after (Draw.coefficient (α := α)) (triangleIndex n r c) g)) =
      .ok (Draw.numbered Draw.coefficient (triangleIndex n r c) g,
        Draw.after (Draw.coefficient (α := α)) (triangleIndex n r (c + 1)) g) := by
    rw [triangleIndex_succ (r := r) hrc, Draw.after_succ]
    rfl
  have hloop := Matrix.writeMirrored_eq (fun _ _ g => .ok (Draw.coefficient g)) zero_le_one
    _ _ hnext (fun r hr => congrArg (fun k => Draw.after Draw.coefficient k g)
      (triangleIndex_row hr)) (q := .fill n n Scalar.zero) rfl rfl
  have hfirst : triangleIndex n 0 0 = 0 := by simp [triangleIndex]
  rw [hfirst] at hloop
  rw [symmetric_eq_generate, ← triangleIndex_self]
  refine hloop.trans (congrArg (fun w => Except.ok (w, _)) (Matrix.generate_congr ?_))
  intro r _ c _
  exact if_pos min_le_max

/-- Where the draws of a bipartite problem end up. -/
theorem bipartite_eq (n0 n1 : ℕ) (g : Generator) : bipartite (α := α) n0 n1 g =
    (⟨(List.range n0).map fun i => Draw.numbered Draw.coefficient i g,
      (List.range n1).map fun i => Draw.numbered Draw.coefficient (n0 + i) g,
      .generate n1 n0 fun r c => Draw.numbered Draw.coefficient (n0 + n1 + (r * n0 + c)) g⟩,
      Draw.after (Draw.coefficient (α := α)) (n0 + n1 + n1 * n0) g) := by
  have hvalues : (.generate n1 n0 fun r c => (Draw.many Draw.coefficient (n1 * n0)
        (Draw.after (Draw.coefficient (α := α)) (n0 + n1) g)).1.toArray.getD (r * n0 + c)
          Scalar.zero : Matrix α) =
      .generate n1 n0 fun r c => Draw.numbered Draw.coefficient (n0 + n1 + (r * n0 + c)) g := by
    refine Matrix.generate_congr fun r hr c hc => ?_
    rw [Draw.getD_many _ (Matrix.index_lt hr hc), Draw.numbered_after]
  have hlast : (Draw.many (Draw.coefficient (α := α)) (n1 * n0)
      (Draw.after (Draw.coefficient (α := α)) (n0 + n1) g)).2 =
      Draw.after (Draw.coefficient (α := α)) (n0 + n1 + n1 * n0) g := by
    rw [Draw.many_eq, Draw.after_after]
  rw [bipartite]
  simp only [Draw.many_eq _ n0, Draw.many_eq _ n1, Draw.after_after, Draw.numbered_after]
  exact Prod.ext (congrArg (Bipartite.Coefficients.mk _ _) hvalues) hlast

/-- With room for either layer and for the couplings a bipartite problem is drawn to the end. -/
theorem bipartiteAt_eq (n0 n1 : ℕ) (g : Generator) : bipartiteAt (α := α) n0 n1 g =
    if n0 < Matrix.capacity ∧ n1 < Matrix.capacity ∧ n1 * n0 < Matrix.capacity then
      .ok (bipartite n0 n1 g)
    else .error .capacity := by
  have hloop (g : Generator) := Matrix.writeRows_draw (Draw.coefficient (α := α)) (m := n1)
    (n := n0) (q := .fill n1 n0 Scalar.zero) rfl rfl g
  unfold bipartiteAt manyAt Matrix.allocate
  by_cases h0 : n0 < Matrix.capacity
  · by_cases h1 : n1 < Matrix.capacity
    · by_cases hw : n1 * n0 < Matrix.capacity
      · simp only [h0, h1, hw, and_self, if_true, bind, Except.bind, hloop]
        rfl
      · simp only [h0, h1, hw, and_false, if_true, if_false, bind, Except.bind]
        rfl
    · simp only [h0, h1, false_and, and_false, if_true, if_false, bind, Except.bind]
      rfl
  · simp only [h0, false_and, if_false, bind, Except.bind]

/-- There is room for the coefficients of a random problem. -/
def HasRoom (graph : Graph) (n0 n1 : ℕ) : Prop :=
  match graph with
  | .rbm => n0 < Matrix.capacity ∧ n1 < Matrix.capacity ∧ n1 * n0 < Matrix.capacity
  | _ => n0 * n0 < Matrix.capacity

end Loops

/-- Every coefficient takes one word. -/
theorem after_coefficient {α : Type} [Scalar α] (k : ℕ) (g : Generator) :
    Draw.after (Draw.coefficient (α := α)) k g = { g with position := g.position + k } := by
  induction k with
  | zero => rfl
  | succ k ih =>
    rw [Draw.after_succ, ih]
    rfl

/-- Random problems are valid, and each of their coefficients is a draw of its own. The loops over
the upper triangle take as many draws as there are positions on or above the diagonal, and the two
mirrored entries hold, in the end, the one that was made for them; a bipartite problem holds its
draws in the order in which it lists its coefficients. Every draw is in range, and leaves the
generator one word further on. Nothing but want of room for the coefficients stops the loops. -/
theorem problems_drawn_in_order (n n0 n1 : ℕ) (g : Generator) :
    let draw (k : ℕ) : Float := Draw.numbered Draw.coefficient k g
    let w := (symmetric (α := Float) n g).1
    let p := (bipartite (α := Float) n0 n1 g).1
    (∀ k, (-Scalar.half ≤ draw k ∧ draw k < Scalar.half) ∧
      Draw.after (Draw.coefficient (α := Float)) k g = { g with position := g.position + k }) ∧
    ((symmetricAt n g = if n * n < Matrix.capacity then
        .ok (w, Draw.after (Draw.coefficient (α := Float)) (n * (n + 1) / 2) g)
      else .error .capacity) ∧
      w.shape = (n, n) ∧
      (∀ r c, r ≤ c → c < n → w.entry r c = draw (r * n - r * (r - 1) / 2 + (c - r)) ∧
        w.entry c r = draw (r * n - r * (r - 1) / 2 + (c - r))) ∧
      (∀ x ∈ w.data, -Scalar.half ≤ x ∧ x < Scalar.half) ∧
      (Problem.dense w).validate = .ok ()) ∧
    (bipartiteAt n0 n1 g =
      if n0 < Matrix.capacity ∧ n1 < Matrix.capacity ∧ n1 * n0 < Matrix.capacity then
        .ok (p, Draw.after (Draw.coefficient (α := Float)) (n0 + n1 + n0 * n1) g)
      else .error .capacity) ∧
      p.b0 = (List.range n0).map draw ∧
      p.b1 = (List.range n1).map (fun i => draw (n0 + i)) ∧
      p.w.shape = (n1, n0) ∧
      (∀ r < n1, ∀ c < n0, p.w.entry r c = draw (n0 + n1 + (r * n0 + c))) ∧
      (Problem.bipartite p).validate = .ok () := by
  intro draw w p
  have hrange (k : ℕ) : -Scalar.half ≤ draw k ∧ draw k < Scalar.half :=
    Float64.coefficient_range _
  have hw : w = .generate n n fun r c => draw (triangleIndex n (min r c) (max r c)) :=
    congrArg Prod.fst (symmetric_eq_generate n g)
  have hp : p = ⟨(List.range n0).map draw, (List.range n1).map fun i => draw (n0 + i),
      .generate n1 n0 fun r c => draw (n0 + n1 + (r * n0 + c))⟩ :=
    congrArg Prod.fst (bipartite_eq n0 n1 g)
  refine ⟨fun k => ⟨hrange k, after_coefficient k g⟩, ⟨?_, rfl, fun r c hrc hc => ?_, ?_,
    check_symmetric n g⟩, ?_, congrArg Bipartite.Coefficients.b0 hp,
    congrArg Bipartite.Coefficients.b1 hp, rfl, fun r hr c hc => ?_, check_bipartite n0 n1 g⟩
  · have hlast := congrArg Prod.snd (symmetric_eq_generate (α := Float) n g)
    rw [symmetricAt_eq, ← Prod.mk.eta (p := symmetric n g), hlast]
  · have hr := hrc.trans_lt hc
    rw [hw, Matrix.entry_generate _ hr hc, Matrix.entry_generate _ hc hr, min_comm c r,
      max_comm c r, min_eq_left hrc, max_eq_right hrc]
    exact ⟨rfl, rfl⟩
  · intro x hx
    rw [hw] at hx
    obtain ⟨i, rfl⟩ := Array.mem_ofFn.mp hx
    exact hrange _
  · have hlast := congrArg Prod.snd (bipartite_eq (α := Float) n0 n1 g)
    rw [bipartiteAt_eq, ← Prod.mk.eta (p := bipartite n0 n1 g), hlast, Nat.mul_comm n0 n1]
  · rw [hp, Matrix.entry_generate _ hr hc]

/-- Six draws for three variables, the fifth of them for the last two; five draws for two variables
and one, the fifth of them for the second coupling. -/
theorem problems_drawn_in_order_of_three :
    let g := Generator.ofSeed 7
    let w := (symmetric (α := Float) 3 g).1
    let p := (bipartite (α := Float) 2 1 g).1
    w.entry 1 2 = Draw.numbered Draw.coefficient 4 g ∧
      w.entry 2 1 = Draw.numbered Draw.coefficient 4 g ∧
      symmetricAt 3 g = .ok (w, { g with position := 6 }) ∧
      p.w.entry 0 1 = Draw.numbered Draw.coefficient 4 g ∧
      bipartiteAt 2 1 g = .ok (p, { g with position := 5 }) := by
  intro g w p
  obtain ⟨-, ⟨hsymmetric, -, hentry, -, -⟩, hbipartite, -, -, -, hcoupling, -⟩ :=
    problems_drawn_in_order 3 2 1 g
  obtain ⟨hupper, hlower⟩ := hentry 1 2 (by decide) (by decide)
  rw [if_pos (by decide)] at hsymmetric hbipartite
  exact ⟨hupper, hlower, hsymmetric, hcoupling 0 (by decide) 1 (by decide), hbipartite⟩

end Qubo.Random
