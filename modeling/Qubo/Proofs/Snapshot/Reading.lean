import Mathlib.Tactic
import Qubo.Proofs.Json.Weight
import Qubo.Proofs.Snapshot.Writing

/-! Snapshots of problems as they are read: the shape of the matrix is the one the text declares,
and the text has at least as many characters as the matrix has entries. -/
namespace Qubo.Snapshot
open Scalar

section Places

/-- A place of a record: the name of the field that fills it, and how that field is read. -/
structure Place (δ : Type) where
  {β : Type}
  name : String
  decode : Json → Decoded β
  get : δ → Option β
  set : δ → Option β → δ

variable {δ : Type}

/-- Reads a field into the place of its name; a field of no place is passed over. -/
def readInto (d : δ) (f : String × Json) : List (Place δ) → Decoded δ
  | [] => .ok d
  | p :: places =>
    if f.1 = p.name then once (p.get d) (p.decode f.2) >>= fun x => pure (p.set d x)
    else readInto d f places

/-- Fields are read into places, each of which keeps what it holds when another one is filled. -/
structure Reads (add : δ → String × Json → Decoded δ) (places : List (Place δ)) : Prop where
  add_eq (d : δ) (f : String × Json) : add d f = readInto d f places
  names : (places.map (·.name)).Nodup
  get_set : ∀ p ∈ places, ∀ d x, p.get (p.set d x) = x
  apart : ∀ p ∈ places, ∀ q ∈ places, p.name ≠ q.name → ∀ d x, p.get (q.set d x) = p.get d

/-- A place that is filled was empty. -/
theorem exists_of_once {β : Type} {place : Option β} {v : Decoded β} {set : Option β → δ} {d' : δ}
    (h : (once place v >>= fun x => pure (set x)) = .ok d') :
    place = none ∧ ∃ x, v = .ok x ∧ d' = set (some x) := by
  obtain ⟨filled, honce, hset⟩ := Result.bind_eq_ok_iff.mp h
  cases place with
  | some y => cases honce
  | none =>
    obtain ⟨x, hx, rfl⟩ := Result.exists_of_map_eq_ok honce
    exact ⟨rfl, x, hx, (Except.ok.inj hset).symm⟩

theorem readInto_cases {places : List (Place δ)} {d d' : δ} {f : String × Json}
    (h : readInto d f places = .ok d') : d' = d ∧ f.1 ∉ places.map (·.name) ∨
      ∃ p ∈ places, f.1 = p.name ∧ p.get d = none ∧ ∃ x, p.decode f.2 = .ok x ∧
        d' = p.set d (some x) := by
  induction places with
  | nil => exact .inl ⟨(Except.ok.inj h).symm, List.not_mem_nil⟩
  | cons p places ih =>
    rw [readInto] at h
    split_ifs at h with hname
    · exact .inr ⟨p, List.mem_cons_self, hname, exists_of_once h⟩
    · rcases ih h with ⟨rfl, hnone⟩ | ⟨q, hq, hread⟩
      · exact .inl ⟨rfl, fun hmem => (List.mem_cons.mp hmem).elim hname hnone⟩
      · exact .inr ⟨q, List.mem_cons_of_mem _ hq, hread⟩

namespace Reads
variable {add : δ → String × Json → Decoded δ} {places : List (Place δ)} {p : Place δ} {d d' : δ}

/-- A field fills the place of its name, which must not be filled twice. -/
theorem same (h : Reads add places) (hp : p ∈ places) {v : Json}
    (hadd : add d (p.name, v) = .ok d') : p.get d = none ∧
      ∃ x, p.decode v = .ok x ∧ p.get d' = some x := by
  rw [h.add_eq] at hadd
  rcases readInto_cases hadd with ⟨-, hnone⟩ | ⟨q, hq, hname, hempty, x, hx, rfl⟩
  · exact absurd (List.mem_map_of_mem hp) hnone
  · obtain rfl := List.inj_on_of_nodup_map h.names hp hq hname
    exact ⟨hempty, x, hx, h.get_set p hp d (some x)⟩

theorem other (h : Reads add places) (hp : p ∈ places) {f : String × Json} (hne : f.1 ≠ p.name)
    (hadd : add d f = .ok d') : p.get d' = p.get d := by
  rw [h.add_eq] at hadd
  rcases readInto_cases hadd with ⟨rfl, -⟩ | ⟨q, hq, hname, -, x, -, rfl⟩
  · rfl
  · exact h.apart p hp q hq (fun heq => hne (hname.trans heq.symm)) d (some x)

theorem of_foldlM (h : Reads add places) (hp : p ∈ places) {fields : List (String × Json)}
    (hfold : fields.foldlM add d = .ok d') :
    (∀ x, p.get d = some x → p.get d' = some x) ∧
      (∀ v, (p.name, v) ∈ fields → ∃ x, p.decode v = .ok x ∧ p.get d' = some x) ∧
      ∀ x, p.get d' = some x →
        p.get d = some x ∨ ∃ v, (p.name, v) ∈ fields ∧ p.decode v = .ok x := by
  induction fields generalizing d with
  | nil =>
    obtain rfl := Except.ok.inj hfold
    simp
  | cons f fields ih =>
    rw [List.foldlM_cons] at hfold
    obtain ⟨d₁, hadd, hfold⟩ := Result.bind_eq_ok_iff.mp hfold
    obtain ⟨hkept, hmem, horigin⟩ := ih hfold
    by_cases hname : f.1 = p.name
    · obtain ⟨fname, w⟩ := f
      obtain rfl : fname = p.name := hname
      obtain ⟨hempty, y, hy, hplace⟩ := h.same hp hadd
      refine ⟨fun x hx => ?_, fun v hv => ?_, fun x hx => ?_⟩
      · rw [hempty] at hx
        cases hx
      · rcases List.mem_cons.mp hv with heq | hv
        · obtain ⟨-, rfl⟩ := Prod.mk.inj heq
          exact ⟨y, hy, hkept y hplace⟩
        · exact hmem v hv
      · have hxy := (hkept y hplace).symm.trans hx
        obtain rfl := Option.some.inj hxy
        exact .inr ⟨w, List.mem_cons_self, hy⟩
    · have hsame := h.other hp hname hadd
      refine ⟨fun x hx => hkept x (hsame.trans hx), fun v hv => ?_, fun x hx => ?_⟩
      · rcases List.mem_cons.mp hv with rfl | hv
        · exact absurd rfl hname
        · exact hmem v hv
      · rcases horigin x hx with hx | ⟨v, hv, hdecode⟩
        · exact .inl (hsame.symm.trans hx)
        · exact .inr ⟨v, List.mem_cons_of_mem _ hv, hdecode⟩

/-- A record that began empty: what stands at a place is what the fields of its name say, each of
them. -/
theorem required_eq_ok (h : Reads add places) (p : Place δ) (hp : p ∈ places)
    {fields : List (String × Json)} (hempty : p.get d = none)
    (hfold : fields.foldlM add d = .ok d') {x : p.β} (hx : required (p.get d') = .ok x) :
    (∃ v, (p.name, v) ∈ fields ∧ p.decode v = .ok x) ∧
      ∀ v, (p.name, v) ∈ fields → p.decode v = .ok x := by
  obtain ⟨-, hmem, horigin⟩ := h.of_foldlM hp hfold
  have hplace : p.get d' = some x := by
    cases hd : p.get d' with
    | none => rw [hd] at hx; cases hx
    | some y => rw [hd] at hx; rw [Except.ok.inj hx]
  constructor
  · rcases horigin x hplace with hx | hfield
    · rw [hempty] at hx
      cases hx
    · exact hfield
  · intro v hv
    obtain ⟨y, hy, hplace'⟩ := hmem v hv
    rwa [Option.some.inj (hplace'.symm.trans hplace)] at hy

end Reads

end Places

/-! The places of the records -/

namespace MatrixDraft

def rowsPlace : Place MatrixDraft := ⟨"rows", word, rows, fun d x => { d with rows := x }⟩

def colsPlace : Place MatrixDraft := ⟨"cols", word, cols, fun d x => { d with cols := x }⟩

def dataPlace : Place MatrixDraft := ⟨"data", list float, data, fun d x => { d with data := x }⟩

theorem reads : Reads add [rowsPlace, colsPlace, dataPlace] where
  add_eq := by
    rintro d ⟨name, v⟩
    unfold add
    split <;> simp_all [readInto, rowsPlace, colsPlace, dataPlace]
  names := by decide
  get_set := by simp [rowsPlace, colsPlace, dataPlace]
  apart := by simp [rowsPlace, colsPlace, dataPlace]

end MatrixDraft

namespace ProblemDraft

def b0Place : Place ProblemDraft := ⟨"b0", list float, b0, fun d x => { d with b0 := x }⟩

def b1Place : Place ProblemDraft := ⟨"b1", list float, b1, fun d x => { d with b1 := x }⟩

def wPlace : Place ProblemDraft := ⟨"w", matrix, w, fun d x => { d with w := x }⟩

theorem reads_dense : Reads addDense [wPlace] where
  add_eq := by
    rintro d ⟨name, v⟩
    unfold addDense
    split <;> simp_all [readInto, wPlace]
  names := by decide
  get_set := by simp [wPlace]
  apart := by simp [wPlace]

theorem reads_bipartite : Reads addBipartite [b0Place, b1Place, wPlace] where
  add_eq := by
    rintro d ⟨name, v⟩
    unfold addBipartite
    split <;> simp_all [readInto, b0Place, b1Place, wPlace]
  names := by decide
  get_set := by simp [b0Place, b1Place, wPlace]
  apart := by simp [b0Place, b1Place, wPlace]

end ProblemDraft

/-! Values of a text -/

theorem exists_of_ofText {β : Type} {decode : Json → Decoded β} {text : String} {x : β}
    (h : ofText decode text = .ok x) :
    ∃ j rest, Json.readStart text.toList = some (j, rest) ∧ decode j = .ok x := by
  simp only [ofText, Result.bind_eq_ok_iff] at h
  obtain ⟨⟨j, rest⟩, hread, x', hx, h⟩ := h
  cases hstart : Json.readStart text.toList with
  | none => rw [hstart] at hread; cases hread
  | some found =>
    rw [hstart] at hread
    split at h
    case isTrue =>
      obtain rfl := Except.ok.inj h
      exact ⟨j, rest, congrArg some (Except.ok.inj hread), hx⟩
    case isFalse => cases h

section Values
variable {j v : Json} {fs : List (String × Json)}

theorem lt_of_word {n : ℕ} (h : word j = .ok n) : n < UInt64.size := by
  cases j with
  | number m =>
    simp only [word, Json.Numeral.toWord?] at h
    split_ifs at h with hword
    · simp only [Bool.and_eq_true, decide_eq_true_eq] at hword
      rw [← Except.ok.inj h]
      exact hword.2
    · cases h
  | _ => cases h

theorem isFinite_of_float {x : Float} (h : float j = .ok x) : IsFinite x := by
  cases j with
  | number m =>
    cases hread : m.toFloat? with
    | none => rw [float, hread] at h; cases h
    | some y =>
      rw [float, hread] at h
      rw [← Except.ok.inj h]
      exact Float64.isFinite_of_toFloat? hread
  | _ => cases h

theorem isFinite_of_list {xs : List Float} (h : list float j = .ok xs) : ∀ x ∈ xs, IsFinite x := by
  cases j with
  | array items =>
    intro x hx
    obtain ⟨item, -, hitem⟩ := Result.exists_mem_of_mapM_eq_ok h x hx
    exact isFinite_of_float hitem
  | _ => cases h

theorem length_le_weight {xs : List Float} (h : list float j = .ok xs) :
    xs.length ≤ j.weight := by
  cases j with
  | array items =>
    have hlength : items.length = xs.length := (Result.forall₂_of_mapM_eq_ok h).length_eq
    rw [← hlength, Json.weight]
    exact Json.length_le_itemsWeight items
  | _ => cases h

theorem weight_lt_of_entries {names : List String} {name : String}
    (h : entries names j = .ok fs) (hmem : (name, v) ∈ fs) : v.weight < j.weight := by
  have hvalue : v ∈ fs.map (·.2) := List.mem_map_of_mem (f := (·.2)) hmem
  cases j with
  | object fields =>
    obtain rfl := Except.ok.inj h
    rw [Json.weight, Json.fieldsWeight_eq]
    exact Json.weight_lt_of_mem hvalue
  | array items =>
    rw [entries] at h
    split_ifs at h with hlength
    rw [← Except.ok.inj h, List.map_snd_zip hlength] at hvalue
    exact Json.weight_lt_of_mem hvalue
  | _ => cases h

theorem weight_le_of_tagged {tag : String} {body : Json} (h : tagged j = .ok (tag, body)) :
    body.weight ≤ j.weight := by
  rw [tagged.eq_def] at h
  split at h
  case h_1 fields =>
    rw [List.partition_eq_filter_filter] at h
    split at h
    case h_1 heq =>
      obtain ⟨-, rfl⟩ := Prod.mk.inj (Except.ok.inj h)
      rw [← (Prod.mk.inj heq).2, Json.weight, Json.weight, Json.fieldsWeight_eq,
        Json.fieldsWeight_eq]
      exact Json.itemsWeight_le_of_sublist (List.filter_sublist.map _)
    case h_2 => cases h
  case h_2 tag' items =>
    obtain ⟨-, rfl⟩ := Prod.mk.inj (Except.ok.inj h)
    rw [Json.weight, Json.weight, Json.itemsWeight]
    omega
  case h_3 => cases h

end Values

section Matrices
variable {j : Json} {m : Matrix Float} {rows cols : ℕ}

/-- The shape that the text of a matrix declares. -/
def DeclaresShape (j : Json) (rows cols : ℕ) : Prop := ∃ fs r c,
  entries ["rows", "cols", "data"] j = .ok fs ∧ ("rows", r) ∈ fs ∧ word r = .ok rows ∧
    ("cols", c) ∈ fs ∧ word c = .ok cols

theorem exists_fields_of_matrix (h : matrix j = .ok m) :
    ∃ fs d, entries ["rows", "cols", "data"] j = .ok fs ∧
      fs.foldlM MatrixDraft.add ⟨none, none, none⟩ = .ok d ∧ required d.rows = .ok m.rows ∧
      required d.cols = .ok m.cols ∧ required d.data = .ok m.data.toList := by
  simp only [matrix, Result.bind_eq_ok_iff] at h
  obtain ⟨fs, hentries, d, hfold, rows, hrows, cols, hcols, data, hdata, h⟩ := h
  rw [Matrix.ofArray?] at h
  split at h
  case h_2 => cases h
  case h_1 m' hm =>
    split_ifs at hm
    obtain rfl := Option.some.inj hm
    obtain rfl := Except.ok.inj h
    exact ⟨fs, d, hentries, hfold, hrows, hcols, hdata⟩

theorem declaresShape_of_matrix (h : matrix j = .ok m) : DeclaresShape j m.rows m.cols := by
  obtain ⟨fs, d, hentries, hfold, hrows, hcols, -⟩ := exists_fields_of_matrix h
  obtain ⟨⟨r, hr, hrword⟩, -⟩ :=
    MatrixDraft.reads.required_eq_ok MatrixDraft.rowsPlace (by simp) rfl hfold hrows
  obtain ⟨⟨c, hc, hcword⟩, -⟩ :=
    MatrixDraft.reads.required_eq_ok MatrixDraft.colsPlace (by simp) rfl hfold hcols
  exact ⟨fs, r, c, hentries, hr, hrword, hc, hcword⟩

/-- A matrix has the declared shape, which the text cannot declare twice. -/
theorem DeclaresShape.eq_of_matrix (hshape : DeclaresShape j rows cols) (h : matrix j = .ok m) :
    rows = m.rows ∧ cols = m.cols := by
  obtain ⟨fs, d, hentries, hfold, hrows, hcols, -⟩ := exists_fields_of_matrix h
  obtain ⟨fs', r, c, hentries', hr, hrword, hc, hcword⟩ := hshape
  obtain rfl := Except.ok.inj (hentries.symm.trans hentries')
  obtain ⟨-, hr'⟩ :=
    MatrixDraft.reads.required_eq_ok MatrixDraft.rowsPlace (by simp) rfl hfold hrows
  obtain ⟨-, hc'⟩ :=
    MatrixDraft.reads.required_eq_ok MatrixDraft.colsPlace (by simp) rfl hfold hcols
  exact ⟨Except.ok.inj (hrword.symm.trans (hr' r hr)),
    Except.ok.inj (hcword.symm.trans (hc' c hc))⟩

theorem DeclaresShape.lt (h : DeclaresShape j rows cols) :
    rows < UInt64.size ∧ cols < UInt64.size := by
  obtain ⟨fs, r, c, -, -, hr, -, hc⟩ := h
  exact ⟨lt_of_word hr, lt_of_word hc⟩

theorem data_of_matrix (h : matrix j = .ok m) :
    m.data.size < j.weight ∧ ∀ x ∈ m.data.toList, IsFinite x := by
  obtain ⟨fs, d, hentries, hfold, -, -, hdata⟩ := exists_fields_of_matrix h
  obtain ⟨⟨v, hv, hlist⟩, -⟩ :=
    MatrixDraft.reads.required_eq_ok MatrixDraft.dataPlace (by simp) rfl hfold hdata
  have hlength := length_le_weight hlist
  rw [Array.length_toList] at hlength
  exact ⟨hlength.trans_lt (weight_lt_of_entries hentries hv), isFinite_of_list hlist⟩

end Matrices

section Problems
variable {j : Json} {p : Problem Float} {text : String}

/-- The names of the fields of a problem beside the one of its graph family. -/
def fieldNames (tag : String) : List String := if tag = "dense" then ["w"] else ["b0", "b1", "w"]

/-- The shape that the text of a problem declares for its matrix. -/
def Declares (text : String) (rows cols : ℕ) : Prop := ∃ j rest tag body fs w,
  Json.readStart text.toList = some (j, rest) ∧ tagged j = .ok (tag, body) ∧
    entries (fieldNames tag) body = .ok fs ∧ ("w", w) ∈ fs ∧ DeclaresShape w rows cols

theorem Declares.lt {rows cols : ℕ} (h : Declares text rows cols) :
    rows < UInt64.size ∧ cols < UInt64.size := by
  obtain ⟨j, rest, tag, body, fs, w, -, -, -, -, hshape⟩ := h
  exact hshape.lt

/-- What is read as a problem: its fields, all of those with the name of the matrix being read as
that matrix. -/
theorem exists_fields_of_problem (h : problem j = .ok p) : ∃ tag body fs,
    tagged j = .ok (tag, body) ∧ entries (fieldNames tag) body = .ok fs ∧
      (∃ w, ("w", w) ∈ fs ∧ matrix w = .ok p.matrix) ∧
      (∀ w, ("w", w) ∈ fs → matrix w = .ok p.matrix) ∧ ∀ x ∈ p.coefficients, IsFinite x := by
  rw [problem] at h
  split_ifs at h with hreadable
  case neg => cases h
  beta_reduce at h
  obtain ⟨⟨tag, body⟩, htagged, h⟩ := Result.bind_eq_ok_iff.mp h
  split at h
  case h_1 heq =>
    obtain ⟨rfl, rfl⟩ := Prod.mk.inj heq
    simp only [Result.bind_eq_ok_iff] at h
    obtain ⟨fs, hentries, d, hfold, w, hw, hp⟩ := h
    obtain rfl := Except.ok.inj hp
    obtain ⟨hmem, hall⟩ :=
      ProblemDraft.reads_dense.required_eq_ok ProblemDraft.wPlace (by simp) rfl hfold hw
    refine ⟨_, _, fs, htagged, hentries, hmem, hall, ?_⟩
    obtain ⟨v, -, hv⟩ := hmem
    exact (data_of_matrix hv).2
  case h_2 heq =>
    obtain ⟨rfl, rfl⟩ := Prod.mk.inj heq
    simp only [Result.bind_eq_ok_iff] at h
    obtain ⟨fs, hentries, d, hfold, b0, hb0, b1, hb1, w, hw, hp⟩ := h
    obtain rfl := Except.ok.inj hp
    obtain ⟨hmem, hall⟩ :=
      ProblemDraft.reads_bipartite.required_eq_ok ProblemDraft.wPlace (by simp) rfl hfold hw
    refine ⟨_, _, fs, htagged, hentries, hmem, hall, ?_⟩
    obtain ⟨⟨v0, -, h0⟩, -⟩ :=
      ProblemDraft.reads_bipartite.required_eq_ok ProblemDraft.b0Place (by simp) rfl hfold hb0
    obtain ⟨⟨v1, -, h1⟩, -⟩ :=
      ProblemDraft.reads_bipartite.required_eq_ok ProblemDraft.b1Place (by simp) rfl hfold hb1
    obtain ⟨v, -, hv⟩ := hmem
    simp only [Problem.coefficients, List.forall_mem_append]
    exact ⟨⟨isFinite_of_list h0, isFinite_of_list h1⟩, (data_of_matrix hv).2⟩
  case h_3 => cases h

theorem exists_of_ofJson (h : Problem.ofJson text = .ok p) :
    ∃ j rest, Json.readStart text.toList = some (j, rest) ∧ problem j = .ok p :=
  exists_of_ofText h

/-- What a problem read from a text has to do with that text. -/
theorem declares_iff (h : Problem.ofJson text = .ok p) {rows cols : ℕ} :
    Declares text rows cols ↔ rows = p.matrix.rows ∧ cols = p.matrix.cols := by
  obtain ⟨j, rest, hread, hp⟩ := exists_of_ofJson h
  obtain ⟨tag, body, fs, htagged, hentries, ⟨w, hw, hm⟩, hall, -⟩ := exists_fields_of_problem hp
  constructor
  · rintro ⟨j', rest', tag', body', fs', w', hread', htagged', hentries', hw', hshape⟩
    obtain ⟨rfl, -⟩ := Prod.mk.inj (Option.some.inj (hread.symm.trans hread'))
    obtain ⟨rfl, rfl⟩ := Prod.mk.inj (Except.ok.inj (htagged.symm.trans htagged'))
    obtain rfl := Except.ok.inj (hentries.symm.trans hentries')
    exact hshape.eq_of_matrix (hall w' hw')
  · rintro ⟨rfl, rfl⟩
    exact ⟨j, rest, tag, body, fs, w, hread, htagged, hentries, hw, declaresShape_of_matrix hm⟩

theorem size_le_of_ofJson (h : Problem.ofJson text = .ok p) :
    p.matrix.data.size ≤ text.length := by
  obtain ⟨j, rest, hread, hp⟩ := exists_of_ofJson h
  obtain ⟨tag, body, fs, htagged, hentries, ⟨w, hw, hm⟩, -⟩ := exists_fields_of_problem hp
  calc p.matrix.data.size ≤ w.weight := (data_of_matrix hm).1.le
    _ ≤ body.weight := (weight_lt_of_entries hentries hw).le
    _ ≤ j.weight := weight_le_of_tagged htagged
    _ ≤ text.toList.length := Json.weight_le_of_readStart hread
    _ = text.length := String.length_toList

theorem isFinite_of_ofJson (h : Problem.ofJson text = .ok p) : ∀ x ∈ p.coefficients, IsFinite x := by
  obtain ⟨j, rest, -, hp⟩ := exists_of_ofJson h
  obtain ⟨tag, body, fs, -, -, -, -, hfinite⟩ := exists_fields_of_problem hp
  exact hfinite

end Problems

end Qubo.Snapshot
