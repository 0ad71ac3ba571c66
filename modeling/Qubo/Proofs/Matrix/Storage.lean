import Mathlib.Tactic
import Qubo.Proofs.Anneal.Bipartite
import Qubo.Proofs.Matrix.Buffer
import Qubo.Proofs.Snapshot.Reading

/-! What a program can come to hold in the storage of a matrix: one entry per position, whatever has
been done. Transposing twice gives back what there was, and over exact arithmetic a transposed
matrix acts from the other side, as the couplings do in the two halves of an annealing step. -/
namespace Qubo
open Finset

namespace Matrix
open Checked (Fault)

theorem transpose_transpose {α : Type} [Scalar α] (m : Matrix α) : m.transpose.transpose = m :=
  ext_entry rfl rfl fun _ hr _ hc =>
    (m.transpose.entry_transpose hc hr).trans (m.entry_transpose hr hc)

/-- Room is a matter of the dimensions. -/
theorem HasRoom.of_shape {α : Type} {m m' : Matrix α} (h : m.HasRoom)
    (hshape : m'.rows * m'.cols = m.rows * m.cols) : m'.HasRoom := by
  rw [HasRoom, m'.size_eq, hshape, ← m.size_eq]
  exact h

theorem HasRoom.transpose {α : Type} [Scalar α] {m : Matrix α} (h : m.HasRoom) :
    m.transpose.HasRoom :=
  h.of_shape (mul_comm _ _)

namespace Buffer

section Sound
variable {α : Type}

/-- One entry per position, so that all of them can be read and written, and a write changes the
entry that it is meant for and no other. -/
structure IsSound (b : Buffer α) : Prop where
  size_eq : b.data.size = b.rows * b.cols
  get : ∀ r < b.rows, ∀ c < b.cols, ∃ v, b.get r c = .ok v
  set : ∀ r < b.rows, ∀ c < b.cols, ∀ v, ∃ b', b.set r c v = .ok b' ∧
    b'.rows = b.rows ∧ b'.cols = b.cols ∧ ∀ r' < b.rows, ∀ c' < b.cols,
      b'.get r' c' = if r = r' ∧ c = c' then .ok v else b.get r' c'
  row : ∀ r < b.rows, ∃ vs, b.row r = .ok vs ∧ vs.length = b.cols ∧
    ∀ c < b.cols, b.get r c = Checked.demand vs[c]?

variable [Scalar α]

/-- Rows have become columns, and become rows again. -/
structure Transposes (b t : Buffer α) : Prop where
  transpose : b.transpose = .ok t
  rows : t.rows = b.cols
  cols : t.cols = b.rows
  get : ∀ r < b.rows, ∀ c < b.cols, t.get c r = b.get r c
  back : t.transpose = .ok b

/-- Every operation does to the buffer what it does to the matrix. -/
structure Represents (b : Buffer α) (m : Matrix α) : Prop where
  get : ∀ r c, b.get r c = m.readAt r c
  set : ∀ r c v, b.set r c v = (m.writeAt r c v).map Matrix.buffer
  row : ∀ r, b.row r = m.rowAt r
  neg : b.neg = (-m).buffer
  scale : ∀ k, b.scale k = (m.scale k).buffer
  transpose : b.transpose = .ok m.transpose.buffer
  symmetrize : b.symmetrize = .ok m.symmetrize.buffer
  setDiagonal : ∀ v, b.setDiagonal v = .ok (m.setDiagonal v).buffer
  mulVec : ∀ v, b.mulVec v = .ok (m.mulVec v)

variable {m : Matrix α} (hroom : m.HasRoom)
include hroom

theorem represents_buffer : m.buffer.Represents m where
  get := get_buffer hroom
  set := set_buffer hroom
  row := row_buffer hroom
  neg := rfl
  scale _ := rfl
  transpose := transpose_buffer hroom
  symmetrize := symmetrize_buffer hroom
  setDiagonal := setDiagonal_buffer hroom
  mulVec := mulVec_buffer hroom

theorem get_buffer_eq {r c : ℕ} (hr : r < m.rows) (hc : c < m.cols) :
    m.buffer.get r c = .ok (m.entry r c) := by
  rw [get_buffer hroom, m.readAt_eq hr hc]

theorem isSound_buffer : m.buffer.IsSound where
  size_eq := m.size_eq
  get r hr c hc := ⟨m.entry r c, get_buffer_eq hroom hr hc⟩
  set := by
    intro r hr c hc v
    obtain ⟨hset, hroom'⟩ := set_along hroom (m.writeAt_eq v hr hc)
    refine ⟨(m.set r c v).buffer, hset, rfl, rfl, fun r' hr' c' hc' => ?_⟩
    rw [get_buffer_eq hroom' hr' hc', m.entry_set v hr hc hr' hc', get_buffer_eq hroom hr' hc']
    split_ifs <;> rfl
  row := by
    intro r hr
    refine ⟨m.row r, by rw [row_buffer hroom, m.rowAt_eq hr], m.length_row hr, fun c hc => ?_⟩
    rw [get_buffer_eq hroom hr hc, m.getElem?_row hr hc]
    rfl

theorem transposes_buffer : m.buffer.Transposes m.transpose.buffer where
  transpose := transpose_buffer hroom
  rows := rfl
  cols := rfl
  get r hr c hc := by
    rw [get_buffer_eq hroom hr hc, get_buffer_eq hroom.transpose hc hr, m.entry_transpose hr hc]
  back := by rw [transpose_buffer hroom.transpose, m.transpose_transpose]

end Sound

/-- Reads dimensions and values, from which a matrix is made if they fit together. -/
def decode (j : Json) : Snapshot.Decoded (Buffer Float) := do
  let fields ← Snapshot.entries ["rows", "cols", "data"] j
  let d ← fields.foldlM Snapshot.MatrixDraft.add ⟨none, none, none⟩
  let rows ← Snapshot.required d.rows
  let cols ← Snapshot.required d.cols
  let data ← Snapshot.required d.data
  match ofArray? rows cols data.toArray with
  | some b => return b
  | none => throw (.matrixSize data.length rows cols)

/-- What a program can come to hold: matrices as they are made or read, and what the operations
leave of them, one after another. Whatever is given to it or read by it has room in memory. -/
inductive Obtained : Buffer Float → Prop
  | zeros {rows cols b} (h : zeros rows cols = .ok b) : Obtained b
  | values {rows cols data b} (hroom : b.data.size < capacity)
    (h : ofArray? rows cols data = some b) : Obtained b
  | rows {rows b} (hroom : b.data.size < capacity) (h : ofRows? rows = some b) : Obtained b
  | read {j b} (hroom : b.data.size < capacity) (h : decode j = .ok b) : Obtained b
  | neg {b} (h : Obtained b) : Obtained b.neg
  | scale {b} (h : Obtained b) (k) : Obtained (b.scale k)
  | transpose {b b'} (h : Obtained b) (hb' : b.transpose = .ok b') : Obtained b'
  | symmetrize {b b'} (h : Obtained b) (hb' : b.symmetrize = .ok b') : Obtained b'
  | setDiagonal {b b' v} (h : Obtained b) (hb' : b.setDiagonal v = .ok b') : Obtained b'
  | set {b b' r c v} (h : Obtained b) (hb' : b.set r c v = .ok b') : Obtained b'

/-- Dimensions, values, rows and texts of which the buffer is made are those of which the matrix
is. -/
structure MadeAs (b : Buffer Float) (m : Matrix Float) : Prop where
  zeros : ∀ rows cols, zeros rows cols = .ok b ↔ fill rows cols Scalar.zero = m
  values : ∀ rows cols data,
    ofArray? rows cols data = some b ↔ Matrix.ofArray? rows cols data = some m
  rows : ∀ vss, ofRows? vss = some b ↔ Matrix.ofRows? vss = some m
  read : ∀ j, decode j = .ok b ↔ Snapshot.matrix j = .ok m

theorem decode_buffer {m : Matrix Float} (hroom : m.HasRoom) {j : Json} :
    decode j = .ok m.buffer ↔ Snapshot.matrix j = .ok m := by
  refine Result.bind_eq_ok_congr fun fields => Result.bind_eq_ok_congr fun d =>
    Result.bind_eq_ok_congr fun rows => Result.bind_eq_ok_congr fun cols =>
    Result.bind_eq_ok_congr fun data => ?_
  constructor
  · intro h
    split at h
    case h_1 b hb =>
      obtain rfl := Except.ok.inj h
      rw [(ofArray?_buffer hroom).mp hb]
      rfl
    case h_2 => cases h
  · intro h
    split at h
    case h_1 m' hm' =>
      obtain rfl := Except.ok.inj h
      rw [(ofArray?_buffer hroom).mpr hm']
      rfl
    case h_2 => cases h

theorem madeAs_buffer {m : Matrix Float} (hroom : m.HasRoom) : m.buffer.MadeAs m where
  zeros rows cols := by
    rw [zeros_eq_ok_iff]
    constructor
    · rintro ⟨hb, -⟩
      exact buffer_injective hb.symm
    · rintro rfl
      exact ⟨rfl, hroom⟩
  values _ _ _ := ofArray?_buffer hroom
  rows vss := by
    rw [ofRows?_eq]
    exact (Option.map_injective buffer_injective).eq_iff' rfl
  read _ := decode_buffer hroom

theorem exists_ofArray?_of_decode {j : Json} {b : Buffer Float} (h : decode j = .ok b) :
    ∃ rows cols data, ofArray? rows cols data = some b := by
  simp only [decode, Result.bind_eq_ok_iff] at h
  obtain ⟨fields, -, d, -, rows, -, cols, -, data, -, h⟩ := h
  split at h
  case h_1 b' hb' =>
    obtain rfl := Except.ok.inj h
    exact ⟨rows, cols, data.toArray, hb'⟩
  case h_2 => cases h

/-- By the way in which the storage has been obtained. -/
theorem Obtained.exists_matrix {b : Buffer Float} (h : b.Obtained) :
    ∃ m : Matrix Float, m.buffer = b ∧ m.HasRoom := by
  induction h with
  | zeros h =>
    obtain ⟨rfl, hroom⟩ := zeros_eq_ok_iff.mp h
    exact ⟨_, rfl, hroom⟩
  | values hroom h =>
    obtain ⟨rfl, hsize, -⟩ := ofArray?_eq_some_iff.mp h
    exact ⟨⟨_, _, _, hsize⟩, rfl, hroom⟩
  | rows hroom h =>
    rw [ofRows?_eq] at h
    obtain ⟨m, -, rfl⟩ := Option.map_eq_some_iff.mp h
    exact ⟨m, rfl, hroom⟩
  | read hroom h =>
    obtain ⟨rows, cols, data, h⟩ := exists_ofArray?_of_decode h
    obtain ⟨rfl, hsize, -⟩ := ofArray?_eq_some_iff.mp h
    exact ⟨⟨_, _, _, hsize⟩, rfl, hroom⟩
  | neg _ ih =>
    obtain ⟨m, rfl, hroom⟩ := ih
    exact ⟨-m, rfl, hroom.of_shape rfl⟩
  | scale _ k ih =>
    obtain ⟨m, rfl, hroom⟩ := ih
    exact ⟨m.scale k, rfl, hroom.of_shape rfl⟩
  | transpose _ hb' ih =>
    obtain ⟨m, rfl, hroom⟩ := ih
    rw [transpose_buffer hroom] at hb'
    exact ⟨m.transpose, Except.ok.inj hb', hroom.transpose⟩
  | symmetrize _ hb' ih =>
    obtain ⟨m, rfl, hroom⟩ := ih
    rw [symmetrize_buffer hroom] at hb'
    exact ⟨m.symmetrize, Except.ok.inj hb', hroom.of_shape (by simp)⟩
  | setDiagonal _ hb' ih =>
    obtain ⟨m, rfl, hroom⟩ := ih
    rw [setDiagonal_buffer hroom] at hb'
    exact ⟨m.setDiagonal _, Except.ok.inj hb', hroom.of_shape rfl⟩
  | set _ hb' ih =>
    obtain ⟨m, rfl, hroom⟩ := ih
    rw [set_buffer hroom] at hb'
    obtain ⟨m', hwrite, rfl⟩ := Result.exists_of_map_eq_ok hb'
    exact ⟨m', rfl, (set_along hroom hwrite).2⟩

end Buffer

end Matrix

section Exact
variable (m : Matrix ℚ) (x y : List ℚ)

/-- A transposed matrix acts from the other side. -/
theorem Matrix.dot_mulVec_eq :
    Scalar.dot y (m.mulVec x) = Scalar.dot (m.transpose.mulVec y) x := by
  rw [Scalar.dot_comm (m.transpose.mulVec y), m.dot_mulVec_transpose]

end Exact

section Layers
variable {model : Bipartite.Ising ℚ} {m : ℕ} {q : Anneal.LayerSpins ℚ}
  (hq : Anneal.FitsLayers model m q) {k : ℕ} (hk : k < m) (chance : ℚ)
include hq hk

/-- The energy of a slice through what the second layer feels. -/
theorem Anneal.energy_eq_fields_second : model.energy (q.q0.row k) (q.q1.row k) =
    model.c + Scalar.dot model.h0 (q.q0.row k) + ∑ i ∈ range model.h1.length, q.q1.entry k i *
      layerField model.h1 (layerFields model.j q.q0 m) q.q1 ⟨i, k, chance⟩ := by
  rw [sum_mul_layerField hq.2.1 hq.2.2 hk, Bipartite.Ising.energy]
  ring

/-- The same energy through what the first layer feels, by the transposed couplings. -/
theorem Anneal.energy_eq_fields_first : model.energy (q.q0.row k) (q.q1.row k) =
    model.c + Scalar.dot model.h1 (q.q1.row k) + ∑ i ∈ range model.h0.length, q.q0.entry k i *
      layerField model.h0 (layerFields model.j.transpose q.q1 m) q.q0 ⟨i, k, chance⟩ := by
  rw [sum_mul_layerField hq.1.1 hq.1.2 hk, model.energy_from_first]
  ring

end Layers

/-- Whatever a program has done to it, a matrix in storage has one entry per position and answers
as a matrix of the library does; no position of it is out of reach. Transposed, its dimensions
and positions change places, and transposed twice it is what it was, whatever its entries are. In
exact numbers the transposed matrix acts from the other side, so that the fields of both halves of
an annealing step are fields of one energy. -/
theorem stored_matrices_are_whole :
    (∀ b : Matrix.Buffer Float, b.Obtained → b.IsSound ∧ ∃ m : Matrix Float,
      m.buffer = b ∧ b.MadeAs m ∧ b.Represents m ∧ b.Transposes m.transpose.buffer) ∧
    (∀ (α : Type) [Scalar α] (m : Matrix α), m.transpose.shape = (m.cols, m.rows) ∧
      (∀ r < m.rows, ∀ c < m.cols, m.transpose.entry c r = m.entry r c) ∧
      m.transpose.transpose = m) ∧
    (∀ (m : Matrix ℚ) (x y : List ℚ),
      Scalar.dot y (m.mulVec x) = Scalar.dot (m.transpose.mulVec y) x) ∧
    ∀ (model : Bipartite.Ising ℚ) (m : ℕ) (q : Anneal.LayerSpins ℚ),
      Anneal.FitsLayers model m q → ∀ k < m, ∀ chance : ℚ,
        model.energy (q.q0.row k) (q.q1.row k) =
          model.c + Scalar.dot model.h0 (q.q0.row k) +
            ∑ i ∈ range model.h1.length, q.q1.entry k i *
              Anneal.layerField model.h1 (Anneal.layerFields model.j q.q0 m) q.q1 ⟨i, k, chance⟩ ∧
        model.energy (q.q0.row k) (q.q1.row k) =
          model.c + Scalar.dot model.h1 (q.q1.row k) +
            ∑ i ∈ range model.h0.length, q.q0.entry k i *
              Anneal.layerField model.h0 (Anneal.layerFields model.j.transpose q.q1 m) q.q0
                ⟨i, k, chance⟩ := by
  refine ⟨fun b hb => ?_, fun α _ m => ?_, fun m x y => m.dot_mulVec_eq x y,
    fun model m q hq k hk chance => ?_⟩
  · obtain ⟨m, rfl, hroom⟩ := hb.exists_matrix
    exact ⟨Matrix.Buffer.isSound_buffer hroom, m, rfl, Matrix.Buffer.madeAs_buffer hroom,
      Matrix.Buffer.represents_buffer hroom, Matrix.Buffer.transposes_buffer hroom⟩
  · exact ⟨rfl, fun r hr c hc => m.entry_transpose hr hc, m.transpose_transpose⟩
  · exact ⟨Anneal.energy_eq_fields_second hq hk chance, Anneal.energy_eq_fields_first hq hk chance⟩

/-- Two rows of three entries, the last one overwritten; and two slices of one spin against two. -/
theorem stored_matrices_are_whole_of_rows :
    let b : Matrix.Buffer Float := ⟨2, 3, #[1, 2, 3, 4, 5, -7]⟩
    let model : Bipartite.Ising ℚ := ⟨[1], [2, 3], ⟨2, 1, #[4, 5], rfl⟩, 6⟩
    let q : Anneal.LayerSpins ℚ := ⟨⟨2, 1, #[1, -1], rfl⟩, ⟨2, 2, #[1, 1, -1, 1], rfl⟩⟩
    b.Obtained ∧ b.IsSound ∧ (∃ vs, b.row 1 = .ok vs ∧ vs.length = 3) ∧
      (∃ t, b.Transposes t ∧ t.get 2 1 = .ok (-7)) ∧
    Anneal.FitsLayers model 2 q ∧ model.energy (q.q0.row 1) (q.q1.row 1) = 5 ∧
      5 = model.c + Scalar.dot model.h0 (q.q0.row 1) + ∑ i ∈ range 2, q.q1.entry 1 i *
        Anneal.layerField model.h1 (Anneal.layerFields model.j q.q0 2) q.q1 ⟨i, 1, 0⟩ := by
  intro b model q
  obtain ⟨hstored, -, -, hlayers⟩ := stored_matrices_are_whole
  have hb : b.Obtained := by
    have hrows : Matrix.Buffer.ofRows? [[1, 2, 3], [4, 5, 6]] =
        some (⟨2, 3, #[1, 2, 3, 4, 5, 6]⟩ : Matrix.Buffer Float) := rfl
    have hset : (⟨2, 3, #[1, 2, 3, 4, 5, 6]⟩ : Matrix.Buffer Float).set 1 2 (-7) = .ok b := rfl
    exact (Matrix.Buffer.Obtained.rows (by decide) hrows).set hset
  have hq : Anneal.FitsLayers model 2 q := ⟨⟨rfl, rfl⟩, rfl, rfl⟩
  have henergy : model.energy (q.q0.row 1) (q.q1.row 1) = 5 := by decide +kernel
  obtain ⟨hsound, m, -, -, -, htransposes⟩ := hstored b hb
  obtain ⟨vs, hvs, hlength, -⟩ := hsound.row 1 (by decide)
  obtain ⟨hsecond, -⟩ := hlayers model 2 q hq 1 (by decide) 0
  refine ⟨hb, hsound, ⟨vs, hvs, hlength⟩, ⟨_, htransposes, ?_⟩, hq, henergy, ?_⟩
  · rw [htransposes.get 1 (by decide) 2 (by decide)]
    rfl
  · exact henergy.symm.trans hsecond

end Qubo
