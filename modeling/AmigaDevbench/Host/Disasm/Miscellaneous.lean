import AmigaDevbench.Host.Disasm.Recognition

/-!
# The miscellaneous instructions

The group of the top bits `0100` is a chain of tests on masked operation words. Each instruction
below is recognised by the test meant for it, all tests before it failing, but for the moves to the
condition codes: these have the bits of a negation of the size that does not exist.
-/

namespace AmigaDevbench.Disasm

open Decoder M68000 M68000.Instruction

variable {base : Int} {op : Nat}

/-! ### The chain of tests -/

/-- The first tests are for a few words above `4E40`. -/
theorem decode0100_eq_movement (h : op < 0x4E40 ∨ 0x4E80 ≤ op) (hlt : op < 0x5000)
    (hillegal : op ≠ 0x4AFC) : decode0100 base op = decodeMovement base op := by
  rw [decode0100]
  simp only [land_0xFFF0, land_0xFFF8]
  simp (disch := omega) only [↓if_neg]

/-- The tests for movements are for an odd high byte, `48`, `4C` or `4E`. -/
theorem decodeMovement_eq_single (heven : op / 256 % 2 = 0) (h48 : op / 64 = 288 ∨ op / 256 ≠ 72)
    (h4C : op / 256 ≠ 76) (h4E : op / 256 ≠ 78) (hlt : op < 0x5000) :
    decodeMovement base op = decodeSingle base op := by
  rw [decodeMovement]
  simp only [land_0xFFF8, land_0xFFC0, land_0xFB80, land_0xF1C0]
  simp (disch := omega) only [↓if_neg]

/-! ### The first tests -/

theorem reads_simple (o : SimpleOp) : Reads base (.simple o) := by
  cases o <;> exact ⟨by decide, accepts_pure ⟨_, rfl, by decide⟩⟩

theorem reads_stop (imm : Word) : Reads base (.stop imm) := by
  refine reads_of_group 4 fun op hop => ?_
  rw [opword] at hop
  refine ⟨by omega, ?_⟩
  rw [decodeGroup, decode0100]
  simp (disch := omega) only [↓if_neg, ↓if_pos]
  refine accepts_word_bind imm fun _ => accepts_pure ?_
  exact (show Heads "STOP".toList _ by decide).named _

theorem reads_trap (vector : Fin 16) : Reads base (.trap vector) := by
  have hvector := vector.isLt
  refine reads_of_group 4 fun op hop => ?_
  rw [opword] at hop
  refine ⟨by omega, ?_⟩
  rw [decodeGroup, decode0100]
  simp only [land_0xFFF0]
  simp (disch := omega) only [↓if_neg, ↓if_pos]
  exact accepts_pure ((show Heads "TRAP".toList _ by decide).named _)

theorem reads_link (a : Reg) (disp : Word) : Reads base (.link a disp) := by
  have ha := a.isLt
  refine reads_of_group 4 fun op hop => ?_
  rw [opword] at hop
  refine ⟨by omega, ?_⟩
  rw [decodeGroup, decode0100]
  simp only [land_0xFFF0, land_0xFFF8]
  simp (disch := omega) only [↓if_neg, ↓if_pos]
  refine accepts_sword_bind disp fun _ => accepts_pure ?_
  rw [List.append_assoc, List.append_assoc]
  exact (show Heads "LINK".toList _ by decide).named _

theorem reads_unlk (a : Reg) : Reads base (.unlk a) := by
  have ha := a.isLt
  refine reads_of_group 4 fun op hop => ?_
  rw [opword] at hop
  refine ⟨by omega, ?_⟩
  rw [decodeGroup, decode0100]
  simp only [land_0xFFF0, land_0xFFF8]
  simp (disch := omega) only [↓if_neg, ↓if_pos]
  exact accepts_pure ((show Heads "UNLK".toList _ by decide).named _)

theorem reads_moveUsp (fromUsp : Bool) (a : Reg) : Reads base (.moveUsp fromUsp a) := by
  have ha := a.isLt
  have hfrom := fromUsp.toNat_lt
  refine reads_of_group 4 fun op hop => ?_
  rw [opword] at hop
  refine ⟨by omega, ?_⟩
  rw [decodeGroup, decode0100]
  simp only [land_0xFFF0, land_0xFFF8]
  simp (disch := omega) only [↓if_neg, ↓if_pos]
  refine accepts_ite (fun _ => ?_) fun _ => ?_
  · exact accepts_pure ((show Heads "MOVE".toList _ by decide).named _)
  · refine accepts_pure ?_
    rw [List.append_assoc]
    exact (show Heads "MOVE".toList _ by decide).named _

/-! ### Movements -/

/-- Words that the first tests are not for. -/
theorem reads_of_movement {i : Instruction}
    (h : ∀ op, op = i.opword →
      ((op < 0x4E40 ∨ 0x4E80 ≤ op) ∧ op / 4096 = 4 ∧ op ≠ 0x4AFC) ∧
        Accepts (decodeMovement base op) (wordBytes i.extension) (Named i.mnemonic)) :
    Reads base i := by
  refine reads_of_group 4 fun op hop => ?_
  obtain ⟨⟨hfirst, htop, hillegal⟩, haccepts⟩ := h op hop
  refine ⟨⟨by omega, htop⟩, ?_⟩
  rw [decodeGroup, decode0100_eq_movement hfirst (by omega) hillegal]
  exact haccepts

theorem reads_swap (d : Reg) : Reads base (.swap d) := by
  have hd := d.isLt
  refine reads_of_movement fun op hop => ?_
  rw [opword] at hop
  refine ⟨by omega, ?_⟩
  rw [decodeMovement]
  simp only [land_0xFFF8]
  simp (disch := omega) only [↓if_pos]
  exact accepts_pure ((show Heads "SWAP".toList _ by decide).named _)

theorem reads_ext (long : Bool) (d : Reg) : Reads base (.ext long d) := by
  have hd := d.isLt
  refine reads_of_movement fun op hop => ?_
  rw [opword] at hop
  cases long with
  | false =>
    rw [Bool.toNat_false] at hop
    refine ⟨by omega, ?_⟩
    rw [decodeMovement]
    simp only [land_0xFFF8, land_0xFFC0]
    simp (disch := omega) only [↓if_neg, ↓if_pos]
    exact accepts_pure ((show Heads "EXT.W".toList _ by decide).named _)
  | true =>
    rw [Bool.toNat_true] at hop
    refine ⟨by omega, ?_⟩
    rw [decodeMovement]
    simp only [land_0xFFF8, land_0xFFC0]
    simp (disch := omega) only [↓if_neg, ↓if_pos]
    exact accepts_pure ((show Heads "EXT.L".toList _ by decide).named _)

/-- The masks of the movements are tested in turn up to the one that the word matches. -/
theorem reads_pea (src : Operand .long Ea.control) : Reads base (.pea src) := by
  have hfield := field_eq src.ea
  have hmode := mode_of_control src.allowed
  refine reads_of_movement fun op hop => ?_
  rw [opword] at hop
  refine ⟨by omega, ?_⟩
  rw [decodeMovement]
  simp only [land_0xFFF8, land_0xFFC0]
  simp (disch := omega) only [↓if_neg, ↓if_pos]
  exact accepts_decodeUnary .long (by omega) src.fits (show Heads "PEA".toList _ by decide)

theorem accepts_decodeMovem {ea : Ea} {op : Nat} {long : Bool} {mask : Word}
    (hop : op % 64 = ea.field) (hlong : op / 64 % 2 = long.toNat)
    (hfits : ea.fits (.ofLong long) = true) :
    Accepts (decodeMovem base op) (wordBytes (mask :: ea.extension))
      (Named ("MOVEM".toList ++ (Size.ofLong long).suffix)) := by
  have hbit : (op >>> 6) &&& 1 = long.toNat := by
    rw [shiftRight_6, Bits.land_1, hlong]
  have hcode : 1 + long.toNat = (Size.ofLong long).code := by cases long <;> rfl
  refine accepts_word_bind mask fun _ => ?_
  rw [hbit, hcode]
  refine accepts_map ((accepts_decodeEaFromWord hop hfits).mono fun t _ => ?_)
  have hhead : Heads ("MOVEM".toList ++ (Size.ofLong long).suffix)
      ("MOVEM".toList ++ ljust 3 (if long.toNat = 0 then ".W".toList else ".L".toList) ++ [' ']) := by
    cases long <;> decide
  have h := hhead.named
  simp only [List.append_assoc, List.singleton_append] at h
  exact h _

theorem reads_movemStore (long : Bool) (mask : Word) (dst : Operand (.ofLong long) Ea.storable) :
    Reads base (.movemStore long mask dst) := by
  have hfield := field_eq dst.ea
  have hmode := mode_of_storable dst.allowed
  have hlong := long.toNat_lt
  refine reads_of_movement fun op hop => ?_
  rw [opword] at hop
  refine ⟨by omega, ?_⟩
  rw [decodeMovement]
  simp only [land_0xFFF8, land_0xFFC0, land_0xFB80]
  simp (disch := omega) only [↓if_neg, ↓if_pos]
  exact accepts_decodeMovem (by omega) (by omega) dst.fits

theorem reads_movemLoad (long : Bool) (mask : Word) (src : Operand (.ofLong long) Ea.loadable) :
    Reads base (.movemLoad long mask src) := by
  have hfield := field_eq src.ea
  have hlong := long.toNat_lt
  refine reads_of_movement fun op hop => ?_
  rw [opword] at hop
  refine ⟨by omega, ?_⟩
  rw [decodeMovement]
  simp only [land_0xFFF8, land_0xFFC0, land_0xFB80]
  simp (disch := omega) only [↓if_neg, ↓if_pos]
  exact accepts_decodeMovem (by omega) (by omega) src.fits

theorem reads_lea (a : Reg) (src : Operand .long Ea.control) : Reads base (.lea a src) := by
  have ha := a.isLt
  have hfield := field_eq src.ea
  have hmode := mode_of_control src.allowed
  refine reads_of_movement fun op hop => ?_
  rw [opword] at hop
  refine ⟨by omega, ?_⟩
  rw [decodeMovement]
  simp only [land_0xFFF8, land_0xFFC0, land_0xFB80, land_0xF1C0]
  simp (disch := omega) only [↓if_neg, ↓if_pos]
  exact accepts_decodeUnary .long (by omega) src.fits (show Heads "LEA".toList _ by decide)

theorem reads_chk (d : Reg) (src : Operand .word Ea.data) : Reads base (.chk d src) := by
  have hd := d.isLt
  have hfield := field_eq src.ea
  refine reads_of_movement fun op hop => ?_
  rw [opword] at hop
  refine ⟨by omega, ?_⟩
  rw [decodeMovement]
  simp only [land_0xFFF8, land_0xFFC0, land_0xFB80, land_0xF1C0]
  simp (disch := omega) only [↓if_neg, ↓if_pos]
  exact accepts_decodeUnary .word (by omega) src.fits (show Heads "CHK.W".toList _ by decide)

theorem reads_jsr (target : Operand .long Ea.control) : Reads base (.jsr target) := by
  have hfield := field_eq target.ea
  refine reads_of_movement fun op hop => ?_
  rw [opword] at hop
  refine ⟨by omega, ?_⟩
  rw [decodeMovement]
  simp only [land_0xFFF8, land_0xFFC0, land_0xFB80, land_0xF1C0]
  simp (disch := omega) only [↓if_neg, ↓if_pos]
  exact accepts_decodeUnary .long (by omega) target.fits (show Heads "JSR".toList _ by decide)

theorem reads_jmp (target : Operand .long Ea.control) : Reads base (.jmp target) := by
  have hfield := field_eq target.ea
  refine reads_of_movement fun op hop => ?_
  rw [opword] at hop
  refine ⟨by omega, ?_⟩
  rw [decodeMovement]
  simp only [land_0xFFF8, land_0xFFC0, land_0xFB80, land_0xF1C0]
  simp (disch := omega) only [↓if_neg, ↓if_pos]
  exact accepts_decodeUnary .long (by omega) target.fits (show Heads "JMP".toList _ by decide)

/-! ### Operations on one operand -/

/-- Words that neither of the first two parts of the chain is for. -/
theorem reads_of_single {i : Instruction}
    (h : ∀ op, op = i.opword → (op / 256 % 2 = 0 ∧ (op / 64 = 288 ∨ op / 256 ≠ 72) ∧
      op / 256 ≠ 76 ∧ op / 256 ≠ 78 ∧ op / 4096 = 4 ∧ op ≠ 0x4AFC) ∧
      Accepts (decodeSingle base op) (wordBytes i.extension) (Named i.mnemonic)) :
    Reads base i := by
  refine reads_of_movement fun op hop => ?_
  obtain ⟨⟨heven, h48, h4C, h4E, htop, hillegal⟩, haccepts⟩ := h op hop
  refine ⟨⟨by omega, htop, hillegal⟩, ?_⟩
  rw [decodeMovement_eq_single heven h48 h4C h4E (by omega)]
  exact haccepts

theorem reads_tas (dst : Operand .byte Ea.dataAlterable) : Reads base (.tas dst) := by
  have hfield := field_eq dst.ea
  have himmediate := field_of_dataAlterable dst.allowed
  refine reads_of_single fun op hop => ?_
  rw [opword] at hop
  refine ⟨by omega, ?_⟩
  rw [decodeSingle]
  simp only [land_0xFF00, shiftRight_6, Bits.land_3]
  simp (disch := omega) only [↓if_pos]
  exact accepts_decodeUnary .byte (by omega) dst.fits (show Heads "TAS".toList _ by decide)

theorem reads_moveFromSr (dst : Operand .word Ea.dataAlterable) :
    Reads base (.moveFromSr dst) := by
  have hfield := field_eq dst.ea
  refine reads_of_single fun op hop => ?_
  rw [opword] at hop
  refine ⟨by omega, ?_⟩
  rw [decodeSingle]
  simp only [land_0xFF00, shiftRight_6, Bits.land_3]
  simp (disch := omega) only [↓if_neg, ↓if_pos]
  exact accepts_decodeUnary .word (by omega) dst.fits (show Heads "MOVE".toList _ by decide)

theorem reads_moveToSr (src : Operand .word Ea.data) : Reads base (.moveToSr src) := by
  have hfield := field_eq src.ea
  refine reads_of_single fun op hop => ?_
  rw [opword] at hop
  refine ⟨by omega, ?_⟩
  rw [decodeSingle]
  simp only [land_0xFF00, shiftRight_6, Bits.land_3]
  simp (disch := omega) only [↓if_neg, ↓if_pos]
  exact accepts_decodeUnary .word (by omega) src.fits (show Heads "MOVE".toList _ by decide)

theorem reads_nbcd (dst : Operand .byte Ea.dataAlterable) : Reads base (.nbcd dst) := by
  have hfield := field_eq dst.ea
  refine reads_of_single fun op hop => ?_
  rw [opword] at hop
  refine ⟨by omega, ?_⟩
  rw [decodeSingle]
  simp only [land_0xFF00, land_0xFFC0]
  simp (disch := omega) only [↓if_neg, ↓if_pos]
  exact accepts_decodeUnary .byte (by omega) dst.fits (show Heads "NBCD".toList _ by decide)

/-- The test for `MOVE` to the condition codes is never reached. -/
theorem decodeGroup_moveToCcr {src : Operand .word Ea.data} (hop : op = (moveToCcr src).opword) :
    decodeGroup base ((op >>> 12) &&& 0xF) op = pure none := by
  have hfield := field_eq src.ea
  rw [opword] at hop
  have htop : (op >>> 12) &&& 0xF = 4 := by
    rw [shiftRight_12, Bits.land_15]
    omega
  rw [htop, decodeGroup, decode0100_eq_movement (by omega) (by omega) (by omega),
    decodeMovement_eq_single (by omega) (by omega) (by omega) (by omega) (by omega), decodeSingle]
  simp only [land_0xFF00, shiftRight_6, Bits.land_3]
  simp (disch := omega) only [↓if_neg, ↓if_pos]

theorem reads_unary (o : UnaryOp) (size : Size) (dst : Operand size Ea.dataAlterable) :
    Reads base (.unary o size dst) := by
  have hfield := field_eq dst.ea
  have hcode := code_lt size
  refine reads_of_single fun op hop => ?_
  rw [opword] at hop
  have hsize (h : op / 64 % 4 = size.code) : (op >>> 6) &&& 3 = size.code := by
    rw [shiftRight_6, Bits.land_3, h]
  have hbase : o.opword = 0x4000 ∨ o.opword = 0x4200 ∨ o.opword = 0x4400 ∨ o.opword = 0x4600 ∨
      o.opword = 0x4A00 := by cases o <;> decide
  refine ⟨by omega, ?_⟩
  rw [decodeSingle, hsize (by omega)]
  simp only [land_0xFF00]
  cases o
  all_goals
    rw [UnaryOp.opword] at hop
    simp (disch := omega) only [↓if_neg, ↓if_pos]
    exact accepts_decodeUnary size (by omega) dst.fits
      (show Heads (UnaryOp.name _ ++ size.suffix) _ by cases size <;> decide)

end AmigaDevbench.Disasm
