import Mathlib.Data.Nat.Bitwise
import ScriptContainer.Proofs.Inverse

/-!
# Encoding undoes decoding

What has been found by a number has this number. So an instruction that has been read is written
again as the words that it has been read from, but for the flag of the first word, which then says
what the shape of the operands is.
-/

namespace ScriptContainer

open Marker

section Numbers

variable {α : Type} {w : UInt32}

lemma Registry.id_of_lookup [Named α] {r : Registry α} {x : α} (h : r.lookup (.id w) = some x) :
    Keyed.id x = w := id_of_get? h

namespace Function

variable {f : Function}

lemma id_of_findLabel {ref : LabelRef} (h : f.findLabel (.id w) = some ref) : ref.id = w := by
  obtain ⟨l, hl, rfl⟩ := Option.map_eq_some_iff.mp h
  exact Registry.id_of_lookup hl

lemma id_of_findVariable {ref : VarRef} (h : f.findVariable (.id w) = some ref) : ref.id = w := by
  obtain ⟨v, hv, rfl⟩ := Option.map_eq_some_iff.mp h
  exact Registry.id_of_lookup hv

lemma id_of_findTable {ref : TableRef} (h : f.findTable (.id w) = some ref) : ref.id = w := by
  obtain ⟨t, ht, rfl⟩ := Option.map_eq_some_iff.mp h
  exact Registry.id_of_lookup ht

lemma id_of_findSymbol {symbol : Symbol} (h : f.findSymbol (.id w) = some symbol) :
    symbol.id = w := by
  simp only [findSymbol, Option.or_eq_some_iff, Option.map_eq_some_iff] at h
  obtain ⟨ref, href, rfl⟩ | ⟨-, ⟨ref, href, rfl⟩ | ⟨-, ref, href, rfl⟩⟩ := h
  · exact id_of_findLabel href
  · exact id_of_findVariable href
  · exact id_of_findTable href

end Function

namespace Script

variable {s : Script}

lemma id_of_findVariable {ref : VarRef} (h : s.findVariable (.id w) = some ref) : ref.id = w := by
  obtain ⟨v, hv, rfl⟩ := Option.map_eq_some_iff.mp h
  exact Registry.id_of_lookup hv

lemma id_of_findTable {ref : TableRef} (h : s.findTable (.id w) = some ref) : ref.id = w := by
  obtain ⟨t, ht, rfl⟩ := Option.map_eq_some_iff.mp h
  exact Registry.id_of_lookup ht

lemma id_of_findImport {id : RecordId} (h : s.findImport (.id w) = some id) : id = w := by
  obtain ⟨i, hi, rfl⟩ := Option.map_eq_some_iff.mp h
  exact Registry.id_of_lookup hi

lemma id_of_findFunction {id : RecordId} (h : s.findFunction (.id w) = some id) : id = w := by
  obtain ⟨f, hf, rfl⟩ := Option.map_eq_some_iff.mp h
  exact Registry.id_of_lookup hf

lemma id_of_findSymbol {symbol : Symbol} (h : s.findSymbol (.id w) = some symbol) :
    symbol.id = w := by
  simp only [findSymbol, Option.or_eq_some_iff, Option.map_eq_some_iff] at h
  obtain ⟨ref, href, rfl⟩ | ⟨-, ⟨id, hid, rfl⟩ | ⟨-, ⟨id, hid, rfl⟩ | ⟨-, ref, href, rfl⟩⟩⟩ := h
  · exact id_of_findTable href
  · exact id_of_findImport hid
  · exact id_of_findFunction hid
  · exact id_of_findVariable href

lemma check_of_has {symbol : Symbol} (h : s.has symbol = true) (hid : symbol.id = w) :
    s.check symbol = .ok w := by
  rw [check, if_pos h, hid]

end Script

namespace Context

variable {ctx : Context}

lemma id_of_resolve {symbol : Symbol} (h : ctx.resolve (.id w) = .ok symbol) : symbol.id = w := by
  rcases Option.or_eq_some_iff.mp (orUnknown_eq_ok_iff.mp h) with hfirst | ⟨-, hscript⟩
  · obtain ⟨f, -, hfind⟩ := List.exists_of_findSome?_eq_some hfirst
    exact Function.id_of_findSymbol hfind
  · exact Script.id_of_findSymbol hscript

lemma id_of_findVariable {ref : VarRef} (h : ctx.findVariable (.id w) = .ok ref) : ref.id = w := by
  rcases Option.or_eq_some_iff.mp (orUnknown_eq_ok_iff.mp h) with hfirst | ⟨-, hscript⟩
  · obtain ⟨f, -, hfind⟩ := List.exists_of_findSome?_eq_some hfirst
    exact Function.id_of_findVariable hfind
  · exact Script.id_of_findVariable hscript

lemma id_of_findTable {ref : TableRef} (h : ctx.findTable (.id w) = .ok ref) : ref.id = w := by
  rcases Option.or_eq_some_iff.mp (orUnknown_eq_ok_iff.mp h) with hfirst | ⟨-, hscript⟩
  · obtain ⟨f, -, hfind⟩ := List.exists_of_findSome?_eq_some hfirst
    exact Function.id_of_findTable hfind
  · exact Script.id_of_findTable hscript

lemma id_of_findLabel {ref : LabelRef} (h : ctx.findLabel (.id w) = .ok ref) : ref.id = w := by
  obtain ⟨f, -, hfind⟩ := List.exists_of_findSome?_eq_some (orUnknown_eq_ok_iff.mp h)
  exact Function.id_of_findLabel hfind

lemma id_of_findCallee {callee : Callee} (h : ctx.findCallee (.id w) = .ok callee) :
    callee.toSymbol.id = w := by
  have hfound := orUnknown_eq_ok_iff.mp h
  simp only [Option.or_eq_some_iff, Option.map_eq_some_iff] at hfound
  obtain ⟨id, hid, rfl⟩ | ⟨-, id, hid, rfl⟩ := hfound
  · exact Script.id_of_findImport hid
  · exact Script.id_of_findFunction hid

lemma IsScoped.wordBinding_then (h : ctx.IsScoped) {t : Script} (ht : t.Includes ctx.script) :
    ctx.wordBinding.Then t.numbering (.same .numbered Error) where
  symbol hfound := Script.check_of_has (ht _ (h.resolve_has hfound)) (id_of_resolve hfound)
  var hfound := Script.check_of_has (ht _ (h.findVariable_has hfound)) (id_of_findVariable hfound)
  table hfound := Script.check_of_has (ht _ (h.findTable_has hfound)) (id_of_findTable hfound)
  label hfound := Script.check_of_has (ht _ (h.findLabel_has hfound)) (id_of_findLabel hfound)
  callee hfound := Script.check_of_has (ht _ (findCallee_has hfound)) (id_of_findCallee hfound)
  imported hfound := Script.check_of_has (ht _ (findImport_has hfound))
    (Script.id_of_findImport (orUnknown_eq_ok_iff.mp hfound))
  function hfound := Script.check_of_has (ht _ (findFunction_has hfound))
    (Script.id_of_findFunction (orUnknown_eq_ok_iff.mp hfound))
  operator hfound := congrArg Except.ok (Operator.code_of_ofCode? (orUnknown_eq_ok_iff.mp hfound))

end Context

end Numbers

section FirstWords

lemma and_constantFlag (w : UInt32) :
    w &&& constantFlag = if isFlagged w then constantFlag else 0 := by
  have hbit : (w &&& constantFlag).toNat = (w.toNat.testBit 8).toNat * 2 ^ 8 := by
    rw [UInt32.toNat_and]
    exact Nat.and_two_pow w.toNat 8
  split
  case isTrue h =>
    cases hb : w.toNat.testBit 8 with
    | true =>
      rw [hb] at hbit
      exact UInt32.toNat_inj.mp hbit
    | false =>
      rw [hb] at hbit
      have hzero : w &&& constantFlag = 0 := UInt32.toNat_inj.mp hbit
      rw [isFlagged, hzero] at h
      cases h
  case isFalse h => simpa [isFlagged] using h

lemma and_not_or_and (w m : UInt32) : (w &&& ~~~m) ||| (w &&& m) = w := by
  apply UInt32.toBitVec_inj.mp
  apply BitVec.eq_of_getLsbD_eq
  intro i hi
  simp only [UInt32.toBitVec_or, UInt32.toBitVec_and, UInt32.toBitVec_not, BitVec.getLsbD_or,
    BitVec.getLsbD_and, BitVec.getLsbD_not, hi, decide_true, Bool.true_and]
  grind

lemma eq_code_or_flag {first : UInt32} {opcode : Opcode}
    (h : Opcode.ofCode? (first &&& ~~~constantFlag) = some opcode) :
    first = opcode.code ||| (if isFlagged first then constantFlag else 0) := by
  rw [Opcode.code_of_ofCode? h, ← and_constantFlag, and_not_or_and]

end FirstWords

namespace Instruction

section Shapes

variable {S : Slots} {i : Instruction S} {n : Instruction .numbered} {first : UInt32}

lemma isFlagged_opcodeWord (i : Instruction S) : isFlagged i.opcodeWord = i.isConstant :=
  (Decode.flagged_code i.opcode i.isConstant).1

lemma opcodeWord_or_flag (h : i.isConstant) : i.opcodeWord ||| constantFlag = i.opcodeWord := by
  rw [opcodeWord, if_pos h, UInt32.or_assoc, UInt32.or_self]

lemma acceptsConstant_of_fitsBothShapes (h : i.fitsBothShapes) : i.opcode.acceptsConstant := by
  cases i <;> first | rfl | cases h

namespace AnnouncedBy

lemma or_flag (h : n.AnnouncedBy first) :
    first ||| constantFlag = n.opcodeWord ||| constantFlag := by
  rw [eq_code_or_flag h.isOpcode, opcodeWord]
  split <;> split <;> simp [UInt32.or_assoc]

lemma eq_opcodeWord_iff (h : n.AnnouncedBy first) :
    first = n.opcodeWord ↔ isFlagged first = n.isConstant := by
  constructor
  · intro hword
    rw [hword, isFlagged_opcodeWord]
  · intro hflag
    rw [eq_code_or_flag h.isOpcode, hflag]
    rfl

lemma eq_opcodeWord (h : n.AnnouncedBy first) (haccepts : n.opcode.acceptsConstant = false) :
    first = n.opcodeWord := by
  have hnone {b : Bool} (h : b → n.opcode.acceptsConstant) : b = false := by
    cases b with
    | false => rfl
    | true => rw [haccepts] at h; cases h rfl
  rw [h.eq_opcodeWord_iff, hnone h.flag, hnone Decode.acceptsConstant_of_isConstant]

lemma isConstant_eq (h : n.AnnouncedBy first) (hother : n.opcode ≠ .unsure2) :
    n.isConstant = (isFlagged first || n.fitsBothShapes) := by
  cases haccepts : n.opcode.acceptsConstant with
  | true =>
    refine h.shape ?_
    rw [Opcode.choosesShape, haccepts, Bool.true_and, bne_iff_ne]
    exact hother
  | false =>
    have hfits : n.fitsBothShapes = false := by
      rw [Bool.eq_false_iff]
      intro hfits
      rw [acceptsConstant_of_fitsBothShapes hfits] at haccepts
      cases haccepts
    rw [hfits, Bool.or_false, h.eq_opcodeWord_iff.mp (h.eq_opcodeWord haccepts)]

end AnnouncedBy

end Shapes

variable {ctx : Context} {i : Instruction .bound} {r t : Reader}

/-- In a context whose functions are functions of its script, an instruction that has been read can
be written. It takes the bytes that have been read, and is written as these bytes, but that the
flag of the first word may change: it is set exactly for the constant shape. -/
theorem encode_decode (hscoped : ctx.IsScoped) (hread : Read.instruction ctx r = .ok i t) :
    t = r.skip i.size ∧ ∃ first rest,
      (r.bytes.extract r.offset t.offset).toList = bytesOfWords (first :: rest) ∧
      i.encode ctx.script = .ok (i.opcodeWord :: rest) ∧
      first ||| constantFlag = i.opcodeWord ||| constantFlag ∧
      (first = i.opcodeWord ↔ isFlagged first = i.isConstant) ∧
      (i.opcode.acceptsConstant = false → first = i.opcodeWord) := by
  obtain ⟨n, first, hn, -, hfirst, hpasses⟩ := Read.exists_of_instruction hread
  have hnumbering : i.change ctx.script.numbering = .ok n :=
    (change_change (hscoped.wordBinding_then (.refl _)) hn).trans n.change_same
  have hencode : i.encode ctx.script = .ok (i.opcodeWord :: n.operandWords) := by
    rw [encode_eq_ok_iff]
    exact ⟨n, hnumbering, by rw [words, opcodeWord_change hn]⟩
  obtain ⟨count, rfl, hskip⟩ := Read.instruction_consumes.of_ok hread
  refine ⟨hskip, first, n.operandWords, hpasses.taken, hencode, ?_⟩
  rw [opcodeWord_change hn, isConstant_change hn, opcode_change hn]
  exact ⟨hfirst.or_flag, hfirst.eq_opcodeWord_iff, hfirst.eq_opcodeWord⟩

/-- The words of `relayCall` from the start of a buffer on. -/
def relayReader : Reader := .new (bytesOfWords relayCall.numbered.words).toArray

theorem relayCall_reencodes :
    let after := relayReader.skip relayCall.size
    relayScopes.IsScoped ∧ Read.instruction relayScopes relayReader = .ok relayCall after ∧
      after = relayReader.skip relayCall.size ∧ ∃ first rest,
        (relayReader.bytes.extract relayReader.offset after.offset).toList =
          bytesOfWords (first :: rest) ∧
        relayCall.encode relayScopes.script = .ok (relayCall.opcodeWord :: rest) ∧
        first ||| constantFlag = relayCall.opcodeWord ||| constantFlag ∧
        (first = relayCall.opcodeWord ↔ isFlagged first = relayCall.isConstant) ∧
        (relayCall.opcode.acceptsConstant = false → first = relayCall.opcodeWord) := by
  intro after
  have hscoped : relayScopes.IsScoped := relay.isScoped_under [1, 4]
  have hspells : relayScopes.script.Spells relayCall := ⟨relayCall.numbered, rfl, by decide +kernel⟩
  have hshows : relayReader.Shows (relayScopes.script.bytesOf relayCall ++ []) := ⟨[], rfl, rfl⟩
  have hkeeps : relayCall.change relayScopes.rebinding = .ok relayCall := rfl
  have hread := Read.instruction_settled hspells relayScopes hshows
  rw [hkeeps] at hread
  have hread := of_settled_ok hread
  exact ⟨hscoped, hread, encode_decode hscoped hread⟩

/-- The flag of `unsure2` is lost where an expression follows that is not empty. -/
theorem unsure2_loses_flag :
    let r := Reader.new #[0x76, 1, 0, 0, 0, 1, 0, 0x10, 0x40, 0, 0, 0]
    let i : Instruction .bound := .unsure2 [.symbol (.variable ⟨.script, Variable.temporaryBase⟩)]
    (Context.new .new).IsScoped ∧ Read.instruction (.new .new) r = .ok i (r.skip r.bytes.size) ∧
      i.encode (Context.new .new).script = .ok [0x76, Variable.temporaryBase, exprEnd] ∧
      bytesOfWords [0x76, Variable.temporaryBase, exprEnd] ≠ r.bytes.toList :=
  ⟨Context.isScoped_new .new, rfl, rfl, by decide⟩

lemma refused_of_flag {first : UInt32} {after : Reader} {opcode : Opcode}
    (hword : Read.word r = .ok first after) (hflag : isFlagged first)
    (hopcode : Opcode.ofCode? (first &&& ~~~constantFlag) = some opcode)
    (haccepts : opcode.acceptsConstant = false) :
    Read.instruction ctx r = .error (.malformed r.offset (.constantFlag opcode)) after := by
  have hfirst : Decode.word ⟨r, false⟩ = .ok first ⟨after, false⟩ := by
    unfold Decode.word Decode.ofRead
    rw [hword]
  have hoffset : Decode.ofRead Read.offset ⟨r, false⟩ = .ok r.offset ⟨r, false⟩ := rfl
  have hrefused : (first &&& constantFlag != 0 && !opcode.acceptsConstant) = true := by
    rw [haccepts, Bool.not_false, Bool.and_true]
    exact hflag
  have hrun : Decode.instruction ctx ⟨r, false⟩ =
      .error (.malformed r.offset (.constantFlag opcode)) ⟨after, false⟩ := by
    refine (bind_of_ok hoffset).trans ((bind_of_ok hfirst).trans ?_)
    rw [hopcode]
    dsimp only
    rw [if_pos hrefused]
    rfl
  unfold Read.instruction
  rw [hrun]

/-- The flag says the shape of the instruction that follows. Where the operands are written alike in
both shapes, the instruction takes the constant one, whether the flag is set or not, and is written
with the flag. Before an opcode without a constant shape the flag is refused. Only `unsure2`, which
has one shape, is read without regard to the flag. -/
theorem isConstant_of_flag (ctx : Context) (r : Reader) :
    (∀ i t, Read.instruction ctx r = .ok i t → i.opcode ≠ .unsure2 →
      ∃ first, Read.word r = .ok first (r.skip 4) ∧
        i.isConstant = (isFlagged first || i.fitsBothShapes) ∧
        i.opcodeWord = if i.fitsBothShapes then first ||| constantFlag else first) ∧
    (∀ first after opcode, Read.word r = .ok first after → isFlagged first →
      Opcode.ofCode? (first &&& ~~~constantFlag) = some opcode → opcode.acceptsConstant = false →
      Read.instruction ctx r = .error (.malformed r.offset (.constantFlag opcode)) after) := by
  refine ⟨fun i t hread hother => ?_, fun _ _ _ => refused_of_flag⟩
  obtain ⟨n, first, hn, -, hfirst, hpasses⟩ := Read.exists_of_instruction hread
  rw [opcode_change hn] at hother
  have hshape := hfirst.isConstant_eq hother
  obtain ⟨rest, hshows⟩ := hpasses.shows (by simp [bytesOfWords, bytesOfWord])
  refine ⟨first, Read.word_apply hshows, ?_⟩
  rw [opcodeWord_change hn, isConstant_change hn, fitsBothShapes_change hn]
  refine ⟨hshape, ?_⟩
  split
  case isTrue hfits =>
    rw [hfits, Bool.or_true] at hshape
    rw [hfirst.or_flag, opcodeWord_or_flag hshape]
  case isFalse hfits =>
    rw [Bool.not_eq_true] at hfits
    rw [hfits, Bool.or_false] at hshape
    exact (hfirst.eq_opcodeWord_iff.mpr hshape.symm).symm

/-- A flagged instruction with a variable. -/
def flaggedWait : Reader := .new #[0x16, 1, 0, 0, 0, 1, 0, 0x10]

/-- A flagged opcode without operands. -/
def flaggedReturn : Reader := .new #[0x09, 1, 0, 0]

theorem isConstant_of_flaggedWait :
    let i : Instruction .bound := .wait (.var ⟨.script, Variable.temporaryBase⟩)
    (Read.instruction (.new .new) flaggedWait = .ok i (flaggedWait.skip 8) ∧ i.opcode ≠ .unsure2 ∧
      ∃ first, Read.word flaggedWait = .ok first (flaggedWait.skip 4) ∧
        i.isConstant = (isFlagged first || i.fitsBothShapes) ∧
        i.opcodeWord = if i.fitsBothShapes then first ||| constantFlag else first) ∧
    (Read.word flaggedReturn = .ok 0x109 (flaggedReturn.skip 4) ∧ isFlagged 0x109 ∧
      Read.instruction (.new .new) flaggedReturn =
        .error (.malformed 0 (.constantFlag .return)) (flaggedReturn.skip 4)) := by
  intro i
  have hread : Read.instruction (.new .new) flaggedWait = .ok i (flaggedWait.skip 8) := rfl
  have hother : i.opcode ≠ .unsure2 := by decide
  have hword : Read.word flaggedReturn = .ok 0x109 (flaggedReturn.skip 4) := rfl
  have hflag : isFlagged 0x109 := rfl
  have hwait := (isConstant_of_flag (.new .new) flaggedWait).1 i _ hread hother
  have hreturn := (isConstant_of_flag (.new .new) flaggedReturn).2 _ _ .return hword hflag rfl rfl
  exact ⟨⟨hread, hother, hwait⟩, hword, hflag, hreturn⟩

/-- Without the flag an expression without tokens is accepted, and its shape is the constant one. -/
theorem wait_without_flag :
    let r := Reader.new #[0x16, 0, 0, 0, 0x40, 0, 0, 0]
    let i : Instruction .bound := .wait (.expr [])
    Read.word r = .ok 0x16 (r.skip 4) ∧ isFlagged 0x16 = false ∧
      Read.instruction (.new .new) r = .ok i (r.skip 8) ∧ i.isConstant = true :=
  ⟨rfl, rfl, rfl, rfl⟩

end Instruction

end ScriptContainer
