import ScriptContainer.Proofs.Consuming
import ScriptContainer.Proofs.ReadingSections

/-!
# Reads that are put together

The reads of a container are put together from reads of bytes and from looks at the reader, and what
they find fault with is the container. So they never go back, leave the buffer alone and stay within
it, also where they fail, and never report a fault of the program.
-/

namespace ScriptContainer

variable {α β : Type}

/-- A failure of the program, which no container is meant to bring about. -/
def Error.IsFault : Error → Prop
  | .doubleVisit _ | .placedTwice _ | .internal _ => True
  | _ => False

/-- The program is not at fault where the run fails. -/
def Faultless {σ : Type} (run : EStateM Error σ α) : Prop :=
  ∀ s, Outcome (run s) (fun _ _ => True) fun e => ¬ e.IsFault

namespace Faultless

variable {σ : Type} {run : EStateM Error σ α}

lemma pure (a : α) : Faultless (Pure.pure a : EStateM Error σ α) := fun _ => trivial

lemma throw {e : Error} (h : ¬ e.IsFault) : Faultless (throw e : EStateM Error σ α) := fun _ => h

lemma bind {next : α → EStateM Error σ β} (h : Faultless run) (hnext : ∀ a, Faultless (next a)) :
    Faultless (run >>= next) :=
  fun s => (h s).bind fun a t _ => hnext a t

lemma map {f : α → β} (h : Faultless run) : Faultless (f <$> run) := by
  rw [map_eq_pure_bind]
  exact h.bind fun _ => pure _

lemma forM {f : α → EStateM Error σ PUnit} (h : ∀ a, Faultless (f a)) (xs : List α) :
    Faultless (xs.forM f) := by
  induction xs with
  | nil => exact pure ()
  | cons x xs ih => exact (h x).bind fun _ => ih

end Faultless

/-- A read that is put together from reads of bytes and looks at the reader, and that fails otherwise
only over what it has read. Of the length of the buffer no more is asked than that it suffices. -/
inductive Composed : {α : Type} → Read α → Prop
  | pure {α : Type} (a : α) : Composed (Pure.pure a)
  | blame {α : Type} {e : Error} (h : ¬ e.IsFault) : Composed (throw e : Read α)
  | offset : Composed Read.offset
  | room {α : Type} {next : Nat → Read α} (h : ∀ size, Composed (next size))
    (hgrows : ∀ size more, size ≤ more → ∀ r x r', next size r = .ok x r' → next more r = .ok x r') :
    Composed (Read.length >>= next)
  | bytes (count : Nat) : Composed (Read.bytes count)
  | bind {α β : Type} {read : Read α} {next : α → Read β} (h : Composed read)
    (hnext : ∀ a, Composed (next a)) : Composed (read >>= next)

/-- The reader stands in the buffer or at its end. -/
def Reader.Within (buffer : Array UInt8) (r : Reader) : Prop :=
  r.bytes = buffer ∧ r.offset ≤ buffer.size

namespace Composed

variable {read : Read α}

lemma moves (h : Composed read) : Consumes read fun _ _ => True := by
  induction h with
  | pure a => exact .pure trivial
  | blame _ => exact .throw _
  | offset => exact Read.offset_consumes.mono fun _ _ _ => trivial
  | room _ _ ih => exact Read.length_consumes.bind fun size _ _ => (ih size).mono fun _ _ _ => trivial
  | bytes count => exact (Read.bytes_consumes count).mono fun _ _ _ => trivial
  | bind _ _ ih ihnext => exact ih.bind fun a _ _ => (ihnext a).mono fun _ _ _ => trivial

lemma bytes_eq (h : Composed read) {r r' : Reader} {a : α} (hread : read r = .ok a r') :
    r'.bytes = r.bytes := by
  obtain ⟨n, -, hr'⟩ := h.moves.of_ok hread
  rw [hr']
  rfl

lemma stays (h : Composed read) (buffer : Array UInt8) : Upholds (Reader.Within buffer) read := by
  induction h with
  | pure a => exact .pure a
  | blame _ => exact .throw _
  | offset => exact fun _ hr => hr
  | room _ _ ih => exact Upholds.bind (fun _ hr => hr) ih
  | bytes count =>
    intro r hr
    unfold Read.bytes
    split
    case isTrue hroom => exact ⟨hr.1, hr.1 ▸ hroom⟩
    case isFalse => exact hr
  | bind _ _ ih ihnext => exact ih.bind ihnext

lemma faultless (h : Composed read) : Faultless read := by
  induction h with
  | pure a => exact .pure a
  | blame h => exact .throw h
  | offset => exact fun _ => trivial
  | room _ _ ih => exact Faultless.bind (fun _ => trivial) ih
  | bytes count =>
    intro r
    unfold Read.bytes
    split
    case isTrue => trivial
    case isFalse => exact id
  | bind _ _ ih ihnext => exact ih.bind ihnext

lemma map {f : α → β} (h : Composed read) : Composed (f <$> read) := by
  rw [map_eq_pure_bind]
  exact h.bind fun _ => pure _

lemma malformed (offset : Nat) (cause : Malformation) :
    Composed (Read.malformed offset cause : Read α) := blame id

lemma byte : Composed Read.byte := by
  refine bind (bytes 1) fun bs => ?_
  split
  · exact pure _
  · exact bind offset fun _ => malformed _ _

lemma word : Composed Read.word := by
  refine bind (bytes 4) fun bs => ?_
  split
  · exact pure _
  · exact bind offset fun _ => malformed _ _

lemma signed : Composed Read.signed := bind word fun _ => pure _

lemma single : Composed Read.single := bind word fun _ => pure _

lemma times (h : Composed read) (count : Nat) : Composed (Read.times read count) := by
  induction count with
  | zero => exact pure []
  | succ count ih => exact h.bind fun x => ih.bind fun xs => pure _

lemma counted (h : Composed read) : Composed (Read.counted read) :=
  bind word fun count => h.times count.toNat

lemma mapM {f : α → Read β} (h : ∀ a, Composed (f a)) (xs : List α) : Composed (xs.mapM f) := by
  induction xs with
  | nil => exact pure []
  | cons x xs ih =>
    rw [List.mapM_cons]
    exact bind (h x) fun y => ih.bind fun ys => pure _

lemma wordsUntil (stop : Nat) : Composed (Read.wordsUntil stop) := by
  refine bind offset fun here => room (fun size => ?_) fun size more hle r x r' hread => ?_
  · split
    · exact malformed _ _
    split
    · exact malformed _ _
    · exact times word _
  · split at hread
    · cases hread
    · rwa [if_neg (by omega)]

lemma text : Composed Read.text := by
  refine bind offset fun start => bind word fun words => bind (bytes _) fun raw => ?_
  cases String.fromUTF8? (raw.takeWhile (· != 0)).toByteArray with
  | some text => exact pure text
  | none => exact malformed _ _

lemma nameFlag : Composed Read.nameFlag := by
  refine bind offset fun here => bind word fun flag => ?_
  split
  · exact pure true
  split
  · exact pure false
  · exact malformed _ _

lemma name (named : Bool) : Composed (Read.name named) := by
  cases named with
  | true => exact bind text fun name => pure _
  | false => exact pure none

lemma wordOffset : Composed Read.wordOffset := by
  refine bind offset fun here => bind word fun count => room (fun size => ?_)
    fun size more hle r x r' hread => ?_
  · split
    · exact pure _
    · exact malformed _ _
  · split at hread
    · rwa [if_pos (by omega)]
    · cases hread

lemma packed : Composed Read.packed := bind word fun _ => pure _

lemma var (scope : Scope) : Composed (Read.var scope) := by
  refine bind nameFlag fun named => bind word fun id => bind packed fun typed => ?_
  refine bind offset fun valueOffset => bind word fun raw => bind (name named) fun name => ?_
  dsimp only
  cases ValueType.ofCode typed.1 with
  | int | float | raw => exact bind (pure _) fun value => pure _
  | string =>
    dsimp only
    split
    · exact bind (map text) fun value => pure _
    · exact bind (malformed _ _) fun value => pure _

lemma vars (scope : Scope) : Composed (Read.vars scope) := bind (counted (var scope)) fun _ => pure _

lemma imported : Composed Read.imported :=
  bind nameFlag fun named => bind word fun _ => bind word fun _ => bind word fun _ => bind word fun _ =>
    bind word fun _ => bind word fun _ => bind (name named) fun _ => pure _

lemma label : Composed Read.label :=
  bind nameFlag fun named => bind word fun _ => bind word fun _ => bind (name named) fun _ => pure _

lemma table : Composed Read.table := by
  refine bind nameFlag fun named => bind word fun id => bind offset fun typeOffset => ?_
  refine bind word fun code => ?_
  cases ElementType.ofCode? code with
  | none => exact malformed _ _
  | some type =>
    exact bind word fun length => bind wordOffset fun start => bind (name named) fun name => pure _

lemma tables : Composed Read.tables := bind (counted table) fun _ => pure _

lemma function : Composed Read.function :=
  bind nameFlag fun named => bind word fun _ => bind word fun _ => bind word fun _ =>
    bind wordOffset fun _ => bind wordOffset fun _ => bind word fun _ => bind word fun _ =>
    bind (name named) fun _ => bind (vars .owned) fun _ => bind tables fun _ =>
    bind (counted label) fun _ => pure _

lemma sectionOffset (index : Nat) : Composed (Read.sectionOffset index) := by
  refine bind offset fun here => bind word fun count => room (fun size => ?_)
    fun size more hle r x r' hread => ?_
  · split
    · exact pure _
    · exact malformed _ _
  · split at hread
    · rwa [if_pos (by omega)]
    · cases hread

lemma sectionOffsets : Composed Read.sectionOffsets := by
  refine bind (mapM sectionOffset _) fun sections => bind offset fun here => bind word fun reserved => ?_
  split
  · exact pure _
  · exact malformed _ _

lemma enter (sections : List Nat) (index : Nat) : Composed (Read.enter sections index) := by
  refine bind offset fun here => ?_
  dsimp only
  split
  · exact pure _
  · exact malformed _ _

lemma variableSection (s : Script) (scope : Scope) : Composed (Read.variableSection s scope) :=
  bind (vars scope) fun _ => pure _

lemma declarations : Composed Read.declarations :=
  bind sectionOffsets fun sections => bind (enter sections 0) fun _ => bind (wordsUntil _) fun _ =>
    bind (enter sections 1) fun _ => bind (counted function) fun _ => bind (enter sections 2) fun _ =>
    bind (variableSection _ _) fun _ => bind (enter sections 3) fun _ => bind tables fun _ =>
    bind (wordsUntil _) fun _ => bind (enter sections 4) fun _ => bind (variableSection _ _) fun _ =>
    bind (enter sections 5) fun _ => bind (counted imported) fun _ => bind (enter sections 6) fun _ =>
    bind (variableSection _ _) fun _ => bind (enter sections 7) fun _ => pure _

end Composed

end ScriptContainer
