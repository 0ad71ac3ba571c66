import Mathlib
import Qubo.Files.Host
import Qubo.Proofs.Promise

/-! Hosts that do what is asked of them: those that take what is written, and those that also keep
it, whatever is written to other files. -/
namespace Qubo.Files
open Promise (Ensures)
variable {ε σ : Type}

section Serves
variable {m : Type → Type} [Monad m] [Host m] {made : String → Prop}
  {written : String → String → Prop}

/-- A host on which directories can be `made`, texts `written` to files, and which gives back what
it has timed. -/
structure Serves (P : Promise m) (made : String → Prop) (written : String → String → Prop) :
    Prop where
  makeDirectories (path : String) (h : made path) :
    P.Gives (· = .ok ()) (Host.makeDirectories path : m (Except Fault Unit))
  write (path text : String) (h : written path text) :
    P.Gives (· = .ok ()) (Host.write path text : m (Except Fault Unit))
  time {β : Type} (f : Unit → β) : P.Gives (·.1 = f ()) (Host.time f : m (β × Float))

/-- A host whose programs may stop before their end. -/
instance stopping : Host (ExceptT ε m) where
  makeDirectories path := liftM (Host.makeDirectories path : m (Except Fault Unit))
  write path text := liftM (Host.write path text : m (Except Fault Unit))
  append path text := liftM (Host.append path text : m (Except Fault Unit))
  read path := liftM (Host.read path : m (Except Fault ByteArray))
  isThere path := liftM (Host.isThere path : m Bool)
  print text := liftM (Host.print text : m Unit)
  time f := liftM (Host.time f : m (_ × Float))

theorem Serves.orStops [LawfulMonad m] {P : Promise m} (h : Serves P made written)
    (stops : ε → Prop) : Serves (P.orStops stops) made written where
  makeDirectories path hmade := P.orStops_lift (h.makeDirectories path hmade)
  write path text hwritten := P.orStops_lift (h.write path text hwritten)
  time f := P.orStops_lift (h.time f)

end Serves

/-- A host that keeps in its state what files hold. Two paths are apart if what is written to the
one is not seen in the other. -/
structure Disk (σ : Type) [Host (StateM σ)] where
  Sound : σ → Prop
  held : σ → String → Option ByteArray
  Makeable : String → Prop
  Writable : String → Prop
  Apart : String → String → Prop
  makeDirectories (path : String) (hpath : Makeable path) {s : σ} (hs : Sound s) :
    let r := (Host.makeDirectories path : StateM σ _) s
    r.1 = .ok () ∧ Sound r.2 ∧ held r.2 = held s
  write (path text : String) (hpath : Writable path) {s : σ} (hs : Sound s) :
    let r := (Host.write path text : StateM σ _) s
    r.1 = .ok () ∧ Sound r.2 ∧ held r.2 path = some text.toUTF8 ∧
      ∀ other, Apart path other → held r.2 other = held s other
  append (path text : String) (hpath : Writable path) {s : σ} (hs : Sound s) :
    let r := (Host.append path text : StateM σ _) s
    r.1 = .ok () ∧ Sound r.2 ∧
      held r.2 path = some (((held s path).getD ByteArray.empty) ++ text.toUTF8) ∧
      ∀ other, Apart path other → held r.2 other = held s other
  read (path : String) {s : σ} (hs : Sound s) {content : ByteArray}
    (hcontent : held s path = some content) :
    let r := (Host.read path : StateM σ _) s
    r.1 = .ok content ∧ Sound r.2 ∧ held r.2 = held s
  isThere (path : String) {s : σ} (hs : Sound s) {content : ByteArray}
    (hcontent : held s path = some content) :
    let r := (Host.isThere path : StateM σ _) s
    r.1 = true ∧ Sound r.2 ∧ held r.2 = held s
  time {β : Type} (f : Unit → β) {s : σ} (hs : Sound s) :
    let r := (Host.time f : StateM σ _) s
    r.1.1 = f () ∧ Sound r.2 ∧ held r.2 = held s

namespace Disk
variable [Host (StateM σ)] (D : Disk σ)

/-- A file holds some content. -/
def Holds (path : String) (content : ByteArray) (s : σ) : Prop :=
  D.Sound s ∧ D.held s path = some content

variable {path : String} {content : ByteArray} {made : String → Prop}
  {written : String → String → Prop}

/-- A program that writes to other files only leaves a file as it is. -/
theorem serves (hmade : ∀ other, made other → D.Makeable other)
    (hwritten : ∀ other text, written other text → D.Writable other ∧ D.Apart other path) :
    Serves (Promise.keeping (D.Holds path content)) made written where
  makeDirectories other h s hs := by
    obtain ⟨hok, hsound, hheld⟩ := D.makeDirectories other (hmade other h) hs.1
    exact ⟨hok, hsound, by rw [hheld]; exact hs.2⟩
  write other text h s hs := by
    obtain ⟨hwritable, hapart⟩ := hwritten other text h
    obtain ⟨hok, hsound, -, hheld⟩ := D.write other text hwritable hs.1
    exact ⟨hok, hsound, (hheld path hapart).trans hs.2⟩
  time f s hs := by
    obtain ⟨hok, hsound, hheld⟩ := D.time f hs.1
    exact ⟨hok, hsound, by rw [hheld]; exact hs.2⟩

theorem makeDirectories_ensures (h : D.Makeable path) :
    Ensures D.Sound (Host.makeDirectories path : StateM σ _) fun r s => r = .ok () ∧ D.Sound s := by
  intro s hs
  obtain ⟨hok, hsound, -⟩ := D.makeDirectories path h hs
  exact ⟨hok, hsound⟩

theorem write_ensures (h : D.Writable path) (text : String) :
    Ensures D.Sound (Host.write path text : StateM σ _)
      fun r s => r = .ok () ∧ D.Holds path text.toUTF8 s := by
  intro s hs
  obtain ⟨hok, hsound, hheld, -⟩ := D.write path text h hs
  exact ⟨hok, hsound, hheld⟩

theorem write_sound (h : D.Writable path) (text : String) :
    Ensures D.Sound (Host.write path text : StateM σ _) fun r s => r = .ok () ∧ D.Sound s := by
  intro s hs
  obtain ⟨hok, hsound, -⟩ := D.write path text h hs
  exact ⟨hok, hsound⟩

theorem append_ensures (h : D.Writable path) (text : String) :
    Ensures (D.Holds path content) (Host.append path text : StateM σ _)
      fun r s => r = .ok () ∧ D.Holds path (content ++ text.toUTF8) s := by
  intro s hs
  obtain ⟨hok, hsound, hheld, -⟩ := D.append path text h hs.1
  rw [hs.2] at hheld
  exact ⟨hok, hsound, hheld⟩

theorem append_sound (h : D.Writable path) (text : String) :
    Ensures D.Sound (Host.append path text : StateM σ _) fun r s => r = .ok () ∧ D.Sound s := by
  intro s hs
  obtain ⟨hok, hsound, -⟩ := D.append path text h hs
  exact ⟨hok, hsound⟩

theorem read_ensures : Ensures (D.Holds path content) (Host.read path : StateM σ _)
    fun r s => r = .ok content ∧ D.Holds path content s := by
  intro s hs
  obtain ⟨hok, hsound, hheld⟩ := D.read path hs.1 hs.2
  exact ⟨hok, hsound, by rw [hheld]; exact hs.2⟩

theorem isThere_ensures : Ensures (D.Holds path content) (Host.isThere path : StateM σ _)
    fun r s => r = true ∧ D.Holds path content s := by
  intro s hs
  obtain ⟨hok, hsound, hheld⟩ := D.isThere path hs.1 hs.2
  exact ⟨hok, hsound, by rw [hheld]; exact hs.2⟩

end Disk

/-- Files by their paths, without directories. -/
structure Shelf where
  held : String → Option ByteArray

namespace Shelf

def empty : Shelf := ⟨fun _ => none⟩

def put (s : Shelf) (path : String) (content : ByteArray) : Shelf :=
  ⟨Function.update s.held path (some content)⟩

/-- A host on a shelf, whose clock stands still. -/
instance : Host (StateM Shelf) where
  makeDirectories _ := pure (.ok ())
  write path text s := (.ok (), s.put path text.toUTF8)
  append path text s := (.ok (), s.put path ((s.held path).getD ByteArray.empty ++ text.toUTF8))
  read path s := ((s.held path).elim (.error .notFound) .ok, s)
  isThere path s := ((s.held path).isSome, s)
  print _ := pure ()
  time f := pure (f (), 0.0)

/-- A shelf keeps what is written under each path. -/
def disk : Disk Shelf where
  Sound _ := True
  held := held
  Makeable _ := True
  Writable _ := True
  Apart path other := path ≠ other
  makeDirectories _ _ _ _ := ⟨rfl, trivial, rfl⟩
  write _ _ _ _ _ := ⟨rfl, trivial, Function.update_self .., fun _ h =>
    Function.update_of_ne (Ne.symm h) ..⟩
  append _ _ _ _ _ := ⟨rfl, trivial, Function.update_self .., fun _ h =>
    Function.update_of_ne (Ne.symm h) ..⟩
  read _ _ _ _ h := ⟨congrArg (Option.elim · _ _) h, trivial, rfl⟩
  isThere _ _ _ _ h := ⟨congrArg Option.isSome h, trivial, rfl⟩
  time _ _ _ := ⟨rfl, trivial, rfl⟩

end Shelf

end Qubo.Files
