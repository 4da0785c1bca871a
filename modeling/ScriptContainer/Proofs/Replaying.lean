import ScriptContainer.Proofs.ComposedReads
import ScriptContainer.Proofs.RecordReads

/-!
# Reading values in the order of writing

A writer appends values of several types to its bytes. A reader that is asked for the same types in
the same order gives the values back and stops where the bytes end. Whatever it is asked for, and
however it is moved about, a reader stays within its buffer; a read that fails leaves it in place,
except where a text fails after its count.
-/

namespace ScriptContainer

open Number

/-- A value that a writer appends. -/
inductive Datum
  | byte (b : UInt8)
  | word (w : UInt32)
  | signed (value : Int32)
  | single (value : Single)
  | bytes (bs : List UInt8)
  | words (ws : List UInt32)
  | text (t : String)
  deriving DecidableEq

/-- What a reader is asked for: a type, and the length of a list. -/
inductive Datum.Kind
  | byte
  | word
  | signed
  | single
  | bytes (count : Nat)
  | words (count : Nat)
  | text
  deriving DecidableEq

namespace Datum

def kind : Datum → Kind
  | byte _ => .byte
  | word _ => .word
  | signed _ => .signed
  | single _ => .single
  | bytes bs => .bytes bs.length
  | words ws => .words ws.length
  | text _ => .text

/-- Append the value to what is written. -/
def write (d : Datum) (w : Writer) : Writer :=
  match d with
  | byte b => w.byte b
  | word v => w.word v
  | signed value => w.signed value
  | single value => w.single value
  | bytes bs => w.append bs
  | words ws => w.words ws
  | text t => w.text t

/-- Read the next value, of a type that is known. -/
def Kind.read : Kind → Read Datum
  | byte => return .byte (← Read.byte)
  | word => return .word (← Read.word)
  | signed => return .signed (← Read.signed)
  | single => return .single (← Read.single)
  | bytes count => return .bytes (← Read.bytes count)
  | words count => return .words (← Read.wordsUntil ((← Read.offset) + 4 * count))
  | text => return .text (← Read.text)

/-- The bytes of a value; those of a text where it starts at a multiple of four. -/
def encoding : Datum → List UInt8
  | byte b => [b]
  | word w => bytesOfWord w
  | signed value => bytesOfWord value.toUInt32
  | single value => bytesOfWord value.bits
  | bytes bs => bs
  | words ws => bytesOfWords ws
  | text t => bytesOfText t

/-- A text starts at a multiple of four, and holds no zero byte. -/
def FitsAt (position : Nat) : Datum → Prop
  | text t => 4 ∣ position ∧ NulFree t
  | _ => True

instance (position : Nat) : DecidablePred (FitsAt position)
  | text _ => inferInstanceAs (Decidable (_ ∧ _))
  | byte _ | word _ | signed _ | single _ | bytes _ | words _ => inferInstanceAs (Decidable True)

/-- The count of words of a text fits the word that holds it. -/
def Counted : Datum → Prop
  | text t => textWords t < UInt32.size
  | _ => True

instance : DecidablePred Counted
  | text _ => inferInstanceAs (Decidable (_ < _))
  | byte _ | word _ | signed _ | single _ | bytes _ | words _ => inferInstanceAs (Decidable True)

end Datum

def Writer.data (w : Writer) (data : List Datum) : Writer :=
  data.foldl (fun w d => d.write w) w

/-- Read values of the types in order. -/
def Read.data (kinds : List Datum.Kind) : Read (List Datum) :=
  kinds.mapM Datum.Kind.read

/-- Each of the values fits where the ones before it have been written. -/
def Writer.Accepts (w : Writer) : List Datum → Prop
  | [] => True
  | d :: data => d.FitsAt w.position ∧ (d.write w).Accepts data

instance Writer.decidableAccepts (w : Writer) : (data : List Datum) → Decidable (w.Accepts data)
  | [] => inferInstanceAs (Decidable True)
  | d :: data =>
    have := decidableAccepts (d.write w) data
    inferInstanceAs (Decidable (_ ∧ _))

/-! ### What is written -/

namespace Writer

variable {w : Writer} {d : Datum} {data : List Datum}

lemma write_eq (h : d.FitsAt w.position) : d.write w = w.append d.encoding := by
  cases d with
  | byte b =>
    apply eq_of_toList
    simp [Datum.write, Datum.encoding, byte, append]
  | word v | signed value | single value | bytes bs => rfl
  | words ws => exact words_eq w ws
  | text t => exact text_eq h.1 t

lemma data_eq (h : w.Accepts data) : w.data data = w.append (data.flatMap Datum.encoding) := by
  induction data generalizing w with
  | nil => exact w.append_nil.symm
  | cons d data ih =>
    change (d.write w).data data = _
    rw [ih h.2, write_eq h.1, append_append, List.flatMap_cons]

lemma Accepts.fitsAt (h : w.Accepts data) : ∀ d ∈ data, ∃ position, d.FitsAt position := by
  induction data generalizing w with
  | nil => exact List.forall_mem_nil _
  | cons d data ih => exact List.forall_mem_cons.mpr ⟨⟨w.position, h.1⟩, ih h.2⟩

lemma position_text (hw : 4 ∣ w.position) (t : String) :
    (w.text t).position = w.position + (4 + 4 * textWords t) := by
  rw [text_eq hw, position_append, length_bytesOfText, Nat.mul_comm]

end Writer

/-! ### What is read -/

namespace Read

variable {α β : Type} {r r' : Reader}

lemma utf8ByteSize_of_fromUTF8? {bytes : ByteArray} {t : String}
    (h : String.fromUTF8? bytes = some t) : t.utf8ByteSize = bytes.size := by
  unfold String.fromUTF8? at h
  split at h
  case isTrue hvalid =>
    obtain rfl := Option.some.inj h
    rfl
  case isFalse => cases h

lemma utf8ByteSize_of_text {t : String} (h : text r = .ok t r') :
    ∃ count s, word r = .ok count s ∧ t.utf8ByteSize ≤ 4 * count.toNat := by
  unfold text at h
  rw [bind_of_ok (rfl : offset r = .ok r.offset r)] at h
  obtain ⟨count, s, hcount, h⟩ := run_bind_eq_ok_iff.mp h
  obtain ⟨raw, s', hraw, h⟩ := run_bind_eq_ok_iff.mp h
  obtain ⟨n, ⟨hlength, -⟩, -⟩ := (bytes_consumes _).of_ok hraw
  refine ⟨count, s, hcount, ?_⟩
  cases hfound : String.fromUTF8? (raw.takeWhile (· != 0)).toByteArray with
  | none =>
    rw [hfound] at h
    cases h
  | some found =>
    rw [hfound] at h
    obtain rfl := (EStateM.Result.ok.inj h).1
    rw [utf8ByteSize_of_fromUTF8? hfound, List.size_toByteArray, Nat.mul_comm, ← hlength]
    exact (List.takeWhile_prefix _).length_le

end Read

namespace Reads

variable {sizes : Nat → Prop}

lemma byte (b : UInt8) : Reads sizes Read.byte [b] b := (bytes [b]).bind_pure (pure b)

lemma wordsAhead (ws : List UInt32) :
    Reads sizes (do Read.wordsUntil ((← Read.offset) + 4 * ws.length)) (bytesOfWords ws) ws := by
  intro r rest _ hshows
  rw [length_bytesOfWords]
  exact (bind_of_ok (rfl : Read.offset r = .ok r.offset r)).trans (Read.wordsUntil_apply hshows)

lemma datum {d : Datum} {position : Nat} (hfits : d.FitsAt position) (hcount : d.Counted) :
    Reads sizes d.kind.read d.encoding d := by
  cases d with
  | byte b => exact (byte b).bind_pure (pure _)
  | word w => exact (word w).bind_pure (pure _)
  | signed value => exact (signed value).bind_pure (pure _)
  | single value => exact (single value).bind_pure (pure _)
  | bytes bs => exact (bytes bs).bind_pure (pure _)
  | words ws => exact (wordsAhead ws).bind_pure (pure _)
  | text t => exact (text hfits.2 fun _ _ _ => hcount).bind_pure (pure _)

end Reads

lemma Read.textWords_lt_of_text {t : String} {r r' : Reader} {rest : List UInt8}
    (hshows : r.Shows (bytesOfText t ++ rest)) (h : text r = .ok t r') :
    textWords t < UInt32.size := by
  obtain ⟨count, s, hcount, hle⟩ := utf8ByteSize_of_text h
  rw [bytesOfText, List.append_assoc] at hshows
  rw [word_apply hshows] at hcount
  obtain rfl : UInt32.ofNat (textWords t) = count := (EStateM.Result.ok.inj hcount).1
  by_contra hgreat
  have hsize : UInt32.size = 2 ^ 32 := rfl
  -- The count has lost at least one multiple of the size of a word.
  have hlost : (UInt32.ofNat (textWords t)).toNat + 2 ^ 32 ≤ textWords t := by
    have hdiv := Nat.mod_add_div (textWords t) (2 ^ 32)
    have hpos : 1 ≤ textWords t / 2 ^ 32 := (Nat.one_le_div_iff (by decide)).mpr (by omega)
    rw [UInt32.toNat_ofNat']
    omega
  have hroom : 4 * textWords t ≤ t.utf8ByteSize + 4 := by
    unfold textWords
    omega
  omega

lemma Datum.counted_of_read {d : Datum} {r r' : Reader} {rest : List UInt8}
    (hshows : r.Shows (d.encoding ++ rest)) (h : d.kind.read r = .ok d r') : d.Counted := by
  cases d with
  | byte | word | signed | single | bytes | words => trivial
  | text t =>
    obtain ⟨t', s, htext, hanswer⟩ := run_bind_eq_ok_iff.mp h
    obtain rfl : t' = t := Datum.text.inj (EStateM.Result.ok.inj hanswer).1
    exact Read.textWords_lt_of_text hshows htext

namespace Read

lemma data_cons (kind : Datum.Kind) (kinds : List Datum.Kind) :
    data (kind :: kinds) = (do
      let d ← kind.read
      let rest ← data kinds
      return d :: rest) := List.mapM_cons

lemma data_iff {ds : List Datum} (hfits : ∀ d ∈ ds, ∃ position, d.FitsAt position) {r : Reader}
    {rest : List UInt8} (hshows : r.Shows (ds.flatMap Datum.encoding ++ rest)) :
    data (ds.map Datum.kind) r = .ok ds (r.skip (ds.flatMap Datum.encoding).length) ↔
      ∀ d ∈ ds, d.Counted := by
  induction ds generalizing r with
  | nil => exact iff_of_true rfl (List.forall_mem_nil _)
  | cons d ds ih =>
    obtain ⟨⟨position, hd⟩, hds⟩ := List.forall_mem_cons.mp hfits
    rw [List.flatMap_cons, List.append_assoc] at hshows
    have hread (hcount : d.Counted) : d.kind.read r = .ok d (r.skip d.encoding.length) :=
      (Reads.datum hd hcount : Reads (fun _ => True) _ _ d) r _ trivial hshows
    rw [List.map_cons, data_cons, List.forall_mem_cons, ← ih hds hshows.skip, Reader.skip_skip,
      List.flatMap_cons, List.length_append]
    constructor
    · intro h
      obtain ⟨d', s, hfirst, h⟩ := run_bind_eq_ok_iff.mp h
      obtain ⟨ds', s', hrest, h⟩ := run_bind_eq_ok_iff.mp h
      obtain ⟨hanswer, rfl⟩ := EStateM.Result.ok.inj h
      obtain ⟨rfl, rfl⟩ := List.cons.inj hanswer
      have hcount := Datum.counted_of_read hshows hfirst
      rw [hread hcount] at hfirst
      obtain rfl : r.skip d'.encoding.length = s := (EStateM.Result.ok.inj hfirst).2
      exact ⟨hcount, hrest⟩
    · rintro ⟨hcount, hrest⟩
      rw [bind_of_ok (hread hcount), bind_of_ok hrest]
      rfl

end Read

/-! ### Where a reader stops -/

/-- What a reader is asked to do: to read a value, to take a word apart, to read the words up to an
offset, or to move to an offset. -/
inductive Access
  | read (kind : Datum.Kind)
  | packed
  | wordsUntil (stop : Nat)
  | seek (offset : Nat)
  deriving DecidableEq

/-- Do as asked. -/
def Access.perform : Access → Read Unit
  | read kind => do let _ ← kind.read
  | packed => do let _ ← Read.packed
  | wordsUntil stop => do let _ ← Read.wordsUntil stop
  | seek offset => Read.seek offset

/-- The reader after it has been asked for one thing after the other, some of which may fail. -/
def Reader.after (r : Reader) (accesses : List Access) : Reader :=
  accesses.foldl (fun r access => stateAfter (access.perform r)) r

lemma Composed.kind (k : Datum.Kind) : Composed k.read := by
  cases k with
  | byte => exact byte.bind fun _ => pure _
  | word => exact word.bind fun _ => pure _
  | signed => exact signed.bind fun _ => pure _
  | single => exact single.bind fun _ => pure _
  | bytes count => exact (bytes count).bind fun _ => pure _
  | words count => exact offset.bind fun here => (wordsUntil _).bind fun _ => pure _
  | text => exact text.bind fun _ => pure _

lemma Access.stays (access : Access) (buffer : Array UInt8) :
    Upholds (Reader.Within buffer) access.perform := by
  cases access with
  | read k => exact ((Composed.kind k).bind fun _ => .pure _).stays buffer
  | packed => exact (Composed.packed.bind fun _ => .pure _).stays buffer
  | wordsUntil stop => exact ((Composed.wordsUntil stop).bind fun _ => .pure _).stays buffer
  | seek offset =>
    intro r hr
    change Reader.Within buffer (stateAfter (Read.seek offset r))
    unfold Read.seek
    split
    case isTrue hroom => exact ⟨hr.1, hr.1 ▸ hroom⟩
    case isFalse => exact hr

lemma Reader.Within.after {buffer : Array UInt8} {r : Reader} (h : r.Within buffer)
    (accesses : List Access) : (r.after accesses).Within buffer := by
  induction accesses generalizing r with
  | nil => exact h
  | cons access accesses ih => exact ih (access.stays buffer r h)

/-- Where the read fails, the reader has not moved. -/
def FailsInPlace {α : Type} (read : Read α) : Prop :=
  ∀ (r : Reader) (e : Error) (r' : Reader), read r = .error e r' → r' = r

namespace FailsInPlace

variable {α β : Type} {read : Read α}

lemma bind {next : α → Read β} {good : α → Prop} (h : FailsInPlace read) (ha : Answers read good)
    (hnext : ∀ a, good a → ∃ b, next a = Pure.pure b) : FailsInPlace (read >>= next) := by
  intro r e r' hfail
  cases hread : read r with
  | error e' t =>
    rw [bind_of_error hread] at hfail
    obtain rfl := (EStateM.Result.error.inj hfail).2
    exact h r e' t hread
  | ok a t =>
    obtain ⟨b, hb⟩ := hnext a (ha.of_ok hread)
    rw [bind_of_ok hread, hb] at hfail
    cases hfail

lemma bindPure {f : α → β} (h : FailsInPlace read) : FailsInPlace (do return f (← read)) :=
  h.bind (.any _) fun a _ => ⟨f a, rfl⟩

lemma bytes (count : Nat) : FailsInPlace (Read.bytes count) := by
  intro r e r' h
  unfold Read.bytes at h
  split at h
  case isTrue => cases h
  case isFalse => exact (EStateM.Result.error.inj h).2.symm

lemma seek (offset : Nat) : FailsInPlace (Read.seek offset) := by
  intro r e r' h
  unfold Read.seek at h
  split at h
  case isTrue => cases h
  case isFalse => exact (EStateM.Result.error.inj h).2.symm

lemma answers_bytes (count : Nat) : Answers (Read.bytes count) fun bs => bs.length = count :=
  fun r => (Read.bytes_consumes count r).mono (fun _ _ h => h.choose_spec.1.1) fun _ h => h

lemma byte : FailsInPlace Read.byte := by
  refine (bytes 1).bind (answers_bytes 1) fun bs hlength => ?_
  match bs, hlength with
  | [b], _ => exact ⟨b, rfl⟩

lemma word : FailsInPlace Read.word := by
  refine (bytes 4).bind (answers_bytes 4) fun bs hlength => ?_
  match bs, hlength with
  | [a, b, c, d], _ => exact ⟨_, rfl⟩

lemma signed : FailsInPlace Read.signed := word.bindPure

lemma single : FailsInPlace Read.single := word.bindPure

lemma packed : FailsInPlace Read.packed := word.bindPure

lemma word_ok {r : Reader} (h : r.offset + 4 ≤ r.bytes.size) :
    ∃ w, Read.word r = .ok w (r.skip 4) := by
  have hbytes : Read.bytes 4 r =
      .ok (r.bytes.extract r.offset (r.offset + 4)).toList (r.skip 4) := if_pos h
  unfold Read.word
  rw [bind_of_ok hbytes]
  have hlength := (answers_bytes 4).of_ok hbytes
  match (r.bytes.extract r.offset (r.offset + 4)).toList, hlength with
  | [a, b, c, d], _ => exact ⟨_, rfl⟩

lemma times_word_ok {r : Reader} {count : Nat} (h : r.offset + 4 * count ≤ r.bytes.size) :
    ∃ ws r', Read.times Read.word count r = .ok ws r' := by
  induction count generalizing r with
  | zero => exact ⟨[], r, rfl⟩
  | succ count ih =>
    obtain ⟨w, hword⟩ := word_ok (r := r) (by omega)
    have hroom : (r.skip 4).offset + 4 * count ≤ (r.skip 4).bytes.size := by
      simp only [Reader.skip]
      omega
    obtain ⟨ws, r', hrest⟩ := ih hroom
    refine ⟨w :: ws, r', ?_⟩
    rw [Read.times, bind_of_ok hword, bind_of_ok hrest]
    rfl

lemma wordsUntil (stop : Nat) : FailsInPlace (Read.wordsUntil stop) := by
  intro r e r' h
  unfold Read.wordsUntil at h
  rw [bind_of_ok (rfl : Read.offset r = .ok r.offset r),
    bind_of_ok (rfl : Read.length r = .ok r.bytes.size r)] at h
  split at h
  case isTrue => exact (EStateM.Result.error.inj h).2.symm
  split at h
  case isTrue => exact (EStateM.Result.error.inj h).2.symm
  case isFalse hlength hstop =>
    have hroom : r.offset + 4 * ((stop - r.offset) / 4) ≤ r.bytes.size := by omega
    obtain ⟨ws, r'', hok⟩ := times_word_ok hroom
    rw [hok] at h
    cases h

lemma kind {k : Datum.Kind} (h : k ≠ .text) : FailsInPlace k.read := by
  cases k with
  | byte => exact byte.bindPure
  | word => exact word.bindPure
  | signed => exact signed.bindPure
  | single => exact single.bindPure
  | bytes count => exact (bytes count).bindPure
  | words count =>
    intro r e r' hfail
    exact (wordsUntil (r.offset + 4 * count)).bindPure r e r' hfail
  | text => exact absurd rfl h

lemma perform {access : Access} (h : access ≠ .read .text) : FailsInPlace access.perform := by
  cases access with
  | read k => exact (kind fun hk => h (congrArg Access.read hk)).bindPure
  | packed => exact packed.bindPure
  | wordsUntil stop => exact (wordsUntil stop).bindPure
  | seek offset => exact seek offset

end FailsInPlace

/-- What is written in order is read in order, up to the end of the bytes, if each text holds no zero
byte, is written at a multiple of four, and has a count of words that fits a word; without the last
the values do not come back. A text takes its count and as many words as the count says. However a
reader is used, it stays within its buffer, and where it fails to do anything but read a text it has
not moved. -/
theorem Read.data_replays (ds : List Datum) (h : Writer.empty.Accepts ds) :
    let bytes := (Writer.empty.data ds).bytes
    (Read.data (ds.map Datum.kind) (.new bytes) = .ok ds ⟨bytes, bytes.size⟩ ↔
        ∀ d ∈ ds, d.Counted) ∧
      (∀ (w : Writer) (t : String), 4 ∣ w.position →
        (w.text t).position = w.position + (4 + 4 * textWords t)) ∧
      (∀ (buffer : Array UInt8) (accesses : List Access),
        ((Reader.new buffer).after accesses).Within buffer) ∧
      (∀ access : Access, access ≠ .read .text → FailsInPlace access.perform) := by
  intro bytes
  have hbytes : bytes.toList = ds.flatMap Datum.encoding := by
    have hdata := congrArg Writer.bytes (Writer.data_eq h)
    rw [← List.nil_append (ds.flatMap Datum.encoding)]
    exact (congrArg Array.toList hdata).trans (Writer.empty.toList_append _)
  have hshows : (Reader.new bytes).Shows (ds.flatMap Datum.encoding ++ []) :=
    ⟨[], by rw [List.append_nil, ← hbytes]; rfl, rfl⟩
  have hend : (Reader.new bytes).skip (ds.flatMap Datum.encoding).length = ⟨bytes, bytes.size⟩ := by
    rw [← hbytes, Array.length_toList, Reader.skip, Reader.new, Nat.zero_add]
  refine ⟨?_, fun w t hw => Writer.position_text hw t, fun buffer accesses => ?_,
    fun access haccess => .perform haccess⟩
  · rw [← hend]
    exact Read.data_iff h.fitsAt hshows
  · exact Reader.Within.after ⟨rfl, Nat.zero_le _⟩ accesses

/-- A value of each type, with texts of one, three and four bytes a character and an empty one. -/
def signboard : List Datum :=
  [.word 0xffffffff, .text "km 7", .text "Grüße 世界 🚲", .signed (-2), .single ⟨0x7fc00001⟩, .text "",
    .words [1, 2], .byte 9, .bytes [4, 0, 6]]

theorem signboard_replays :
    Writer.empty.Accepts signboard ∧
      Read.data (signboard.map Datum.kind) (.new (Writer.empty.data signboard).bytes) =
        .ok signboard ⟨(Writer.empty.data signboard).bytes,
          (Writer.empty.data signboard).bytes.size⟩ := by
  have haccepts : Writer.empty.Accepts signboard := by decide +kernel
  exact ⟨haccepts, (Read.data_replays signboard haccepts).1.mpr (by decide +kernel)⟩

end ScriptContainer
