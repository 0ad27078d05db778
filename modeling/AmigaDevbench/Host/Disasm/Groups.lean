import AmigaDevbench.Host.Disasm.Recognition

/-!
# The other groups of instructions

Immediate and bit operations, moves, branches, arithmetic and shifts: the operation mode and the
addressing mode between them choose the branch.
-/

namespace AmigaDevbench.Disasm

open Decoder M68000 M68000.Instruction

variable {base : Int} {op : Nat}

/-! ### Immediate and bit operations -/

theorem accepts_immediateData {size : Size} (imm : Literal size) :
    Accepts (immediateData size.code) (wordBytes imm.data) fun _ => True := by
  obtain ⟨data, hlength⟩ := imm
  cases size with
  | byte =>
    obtain ⟨w, rfl⟩ := List.length_eq_one_iff.mp hlength
    exact accepts_word_bind w fun _ => accepts_pure trivial
  | word =>
    obtain ⟨w, rfl⟩ := List.length_eq_one_iff.mp hlength
    exact accepts_word_bind w fun _ => accepts_pure trivial
  | long =>
    obtain ⟨hi, lo, rfl⟩ := List.length_eq_two.mp hlength
    exact accepts_long_bind hi lo fun _ => accepts_pure trivial

theorem accepts_decodeImmOp {size : Size} {ea : Ea} {name : Text} (imm : Literal size)
    (hop : op % 64 = ea.field) (hfits : ea.fits size = true) (hname : ' ' ∉ name) :
    Accepts (decodeImmOp base op name size.code) (wordBytes (imm.data ++ ea.extension))
      (Named (name ++ size.suffix)) := by
  rw [wordBytes_append]
  refine accepts_bind (accepts_immediateData imm) fun data _ => ?_
  refine accepts_map ((accepts_decodeEaFromWord hop hfits).mono fun t _ => ?_)
  rw [List.append_assoc]
  exact ((heads_size size 1).append hname).named _

theorem reads_immediate (o : ImmediateOp) (size : Size) (imm : Literal size)
    (dst : Operand size Ea.dataAlterable) : Reads base (.immediate o size imm dst) := by
  have hfield := field_eq dst.ea
  have hnone := field_of_dataAlterable dst.allowed
  have hcode := code_lt size
  have ho : o.code < 7 := by cases o <;> decide
  refine reads_of_group 0 fun op hop => ?_
  rw [opword] at hop
  have hbit : ¬ op &&& 0x0100 ≠ 0 := by
    rw [land_0x100]
    omega
  have hop9 : (op >>> 9) &&& 7 = o.code := by
    rw [shiftRight_9, Bits.land_7]
    omega
  have hsize : (op >>> 6) &&& 3 = size.code := by
    rw [shiftRight_6, Bits.land_3]
    omega
  have hthree : ¬ size.code = 3 := by omega
  refine ⟨by omega, ?_⟩
  rw [decodeGroup, decode0000, if_neg hbit, hop9, hsize]
  cases o with
  | ori | andi | eori =>
    rw [ImmediateOp.code] at hop
    simp only [ImmediateOp.code]
    rw [if_neg hthree, if_neg (by omega), if_neg (by omega)]
    exact accepts_decodeImmOp imm (by omega) dst.fits (by decide)
  | subi | addi | cmpi =>
    simp only [ImmediateOp.code]
    rw [decodeSized, hsize, if_neg hthree]
    exact accepts_decodeImmOp imm (by omega) dst.fits (by decide)

theorem accepts_decodeToCcr {name : Text} (imm : Word) (hname : Heads name (ljust 9 name)) :
    Accepts (decodeToCcr name) (wordBytes [imm]) (Named name) := by
  refine accepts_word_bind imm fun _ => accepts_pure ?_
  rw [List.append_assoc, List.append_assoc]
  exact hname.named _

theorem accepts_decodeToSr {name : Text} (imm : Word) (hname : Heads name (ljust 9 name)) :
    Accepts (decodeToSr name) (wordBytes [imm]) (Named name) := by
  refine accepts_word_bind imm fun _ => accepts_pure ?_
  rw [List.append_assoc, List.append_assoc]
  exact hname.named _

theorem reads_logicCcr (o : LogicOp) (imm : Word) : Reads base (.logicCcr o imm) := by
  refine reads_of_group 0 fun op hop => ?_
  rw [opword] at hop
  cases o
  all_goals
    rw [LogicOp.code] at hop
    subst hop
    exact ⟨by decide, accepts_decodeToCcr imm (by decide)⟩

theorem reads_logicSr (o : LogicOp) (imm : Word) : Reads base (.logicSr o imm) := by
  refine reads_of_group 0 fun op hop => ?_
  rw [opword] at hop
  cases o
  all_goals
    rw [LogicOp.code] at hop
    subst hop
    exact ⟨by decide, accepts_decodeToSr imm (by decide)⟩

theorem heads_bit (o : BitOp) : Heads o.name (ljust 9 (bitNames.getD o.code [])) := by
  cases o <;> decide

theorem accepts_decodeBitRegister {o : BitOp} {ea : Ea} (hop : op % 64 = ea.field)
    (hcode : op / 64 % 4 = o.code) (hfits : ea.fits .byte = true) :
    Accepts (decodeBitRegister base op) (wordBytes ea.extension) (Named o.name) := by
  have hbit : (op >>> 6) &&& 3 = o.code := by rw [shiftRight_6, Bits.land_3, hcode]
  refine accepts_map ((accepts_decodeEaFromWord hop hfits).mono fun t _ => ?_)
  rw [hbit, List.append_assoc]
  exact (heads_bit o).named _

theorem mode_of_dynamicTarget {o : BitOp} {ea : Ea} (h : o.dynamicTarget ea = true) :
    ea.mode ≠ 1 := by
  cases o with
  | btst => exact mode_of_data h
  | bchg | bclr | bset => exact mode_of_dataAlterable h

theorem reads_bitDynamic (o : BitOp) (d : Reg) (dst : Operand .byte o.dynamicTarget) :
    Reads base (.bitDynamic o d dst) := by
  have hd := d.isLt
  have hfield := field_eq dst.ea
  have hmode := mode_of_dynamicTarget dst.allowed
  have ho : o.code < 4 := by cases o <;> decide
  refine reads_of_group 0 fun op hop => ?_
  rw [opword] at hop
  refine ⟨by omega, ?_⟩
  rw [decodeGroup, decode0000]
  simp only [land_0x100, shiftRight_3, Bits.land_7]
  simp (disch := omega) only [↓if_neg, ↓if_pos]
  exact accepts_decodeBitRegister (by omega) (by omega) dst.fits

theorem reads_bitStatic (o : BitOp) (n : Word) (dst : Operand .byte o.staticTarget) :
    Reads base (.bitStatic o n dst) := by
  have hfield := field_eq dst.ea
  have ho : o.code < 4 := by cases o <;> decide
  refine reads_of_group 0 fun op hop => ?_
  rw [opword] at hop
  have hop9 : (op >>> 9) &&& 7 = 4 := by
    rw [shiftRight_9, Bits.land_7]
    omega
  have hbit : (op >>> 6) &&& 3 = o.code := by
    rw [shiftRight_6, Bits.land_3]
    omega
  refine ⟨by omega, ?_⟩
  rw [decodeGroup, decode0000, hop9]
  simp only [land_0x100]
  simp (disch := omega) only [↓if_neg]
  refine accepts_word_bind n fun num => ?_
  have hea : Accepts (decodeEaFromWord base op Size.byte.code) (wordBytes dst.ea.extension)
      fun _ => True := accepts_decodeEaFromWord (by omega) dst.fits
  refine accepts_map (hea.mono fun t _ => ?_)
  rw [hbit, List.append_assoc]
  exact (heads_bit o).named _

theorem reads_movep (store long : Bool) (d a : Reg) (disp : Word) :
    Reads base (.movep store long d a disp) := by
  have hd := d.isLt
  have ha := a.isLt
  have hstore := store.toNat_lt
  have hlong := long.toNat_lt
  refine reads_of_group 0 fun op hop => ?_
  rw [opword] at hop
  have hmode : (op >>> 6) &&& 7 = 4 + 2 * store.toNat + long.toNat := by
    rw [shiftRight_6, Bits.land_7]
    omega
  have hword : Heads "MOVEP.W".toList "MOVEP.W  ".toList := by decide
  have hlongword : Heads "MOVEP.L".toList "MOVEP.L  ".toList := by decide
  refine ⟨by omega, ?_⟩
  rw [decodeGroup, decode0000]
  simp only [land_0x100, shiftRight_3, Bits.land_7]
  simp (disch := omega) only [↓if_pos]
  refine accepts_sword_bind disp fun _ => ?_
  rw [hmode]
  cases store with
  | false | true =>
    cases long with
    | false => exact accepts_pure ((hword.append_right _).named _)
    | true => exact accepts_pure ((hlongword.append_right _).named _)

/-! ### Moves -/

/-- The source is read first, and the words of the destination behind it. -/
theorem accepts_decodeMove {size : Size} {src dst : Ea} (hsrc : src.fits size = true)
    (hop : op % 64 = src.field) (hdst : dst.fits size = true) (hmode : op / 64 % 8 = dst.mode)
    (hreg : op / 512 % 8 = dst.reg) (haddress : dst.mode ≠ 1) :
    Accepts (decodeMove base op size.code) (wordBytes (src.extension ++ dst.extension))
      (Named ("MOVE".toList ++ size.suffix)) := by
  have hfield := field_eq src
  have hsrcMode : op / 8 % 8 = src.mode := by omega
  have hsrcReg : op % 8 = src.reg := by omega
  rw [decodeMove, wordBytes_append]
  simp only [shiftRight_3, shiftRight_6, shiftRight_9, Bits.land_7]
  rw [hsrcMode, hsrcReg, hmode, hreg]
  refine accepts_addr_bind fun pcAddr => accepts_bind (accepts_decodeEa hsrc pcAddr) fun t _ => ?_
  rw [if_neg haddress]
  refine accepts_addr_bind fun pcAddr' => accepts_map ((accepts_decodeEa hdst pcAddr').mono ?_)
  intro t' _
  rw [List.append_assoc]
  exact ((heads_size size 1).append (by decide)).named _

theorem accepts_decodeMovea {size : Size} {src : Ea} (hsrc : src.fits size = true)
    (hop : op % 64 = src.field) (hmode : op / 64 % 8 = 1) (hsize : size.code ≠ 0) :
    Accepts (decodeMove base op size.code) (wordBytes src.extension)
      (Named ("MOVEA".toList ++ size.suffix)) := by
  have hfield := field_eq src
  have hsrcMode : op / 8 % 8 = src.mode := by omega
  have hsrcReg : op % 8 = src.reg := by omega
  rw [decodeMove]
  simp only [shiftRight_3, shiftRight_6, shiftRight_9, Bits.land_7]
  rw [hsrcMode, hsrcReg, ← List.append_nil (wordBytes _)]
  refine accepts_addr_bind fun pcAddr => accepts_bind (accepts_decodeEa hsrc pcAddr) fun t _ => ?_
  rw [if_pos hmode, if_neg hsize]
  refine accepts_pure ?_
  rw [List.append_assoc, List.append_assoc, List.append_assoc]
  exact ((heads_size size 0).append (by decide)).named _

theorem reads_move (size : Size) (src : Operand size Ea.any)
    (dst : Operand size Ea.dataAlterable) : Reads base (.move size src dst) := by
  have hsrc := field_eq src.ea
  have hdst := field_eq dst.ea
  have hmode := mode_of_dataAlterable dst.allowed
  refine reads_of_group size.moveCode fun op hop => ?_
  rw [opword] at hop
  have hcode : size.moveCode < 4 := by cases size <;> decide
  have hgroup : decodeGroup base size.moveCode op = decodeMove base op size.code := by
    cases size <;> rfl
  refine ⟨by omega, ?_⟩
  rw [hgroup]
  exact accepts_decodeMove src.fits (by omega) dst.fits (by omega) (by omega) hmode

theorem reads_movea (long : Bool) (src : Operand (.ofLong long) Ea.any) (a : Reg) :
    Reads base (.movea long src a) := by
  have ha := a.isLt
  have hsrc := field_eq src.ea
  refine reads_of_group (Size.ofLong long).moveCode fun op hop => ?_
  rw [opword] at hop
  have hcode : (Size.ofLong long).moveCode < 4 := by cases long <;> decide
  have hnonzero : (Size.ofLong long).code ≠ 0 := by cases long <;> decide
  have hgroup : decodeGroup base (Size.ofLong long).moveCode op =
      decodeMove base op (Size.ofLong long).code := by
    cases long <;> rfl
  refine ⟨by omega, ?_⟩
  rw [hgroup]
  exact accepts_decodeMovea src.fits (by omega) (by omega) hnonzero

/-! ### Small constants, conditions and branches -/

theorem reads_quick (subtract : Bool) (n : Fin 8) (size : Size) (dst : Operand size Ea.alterable) :
    Reads base (.quick subtract n size dst) := by
  have hn := n.isLt
  have hsub := subtract.toNat_lt
  have hfield := field_eq dst.ea
  have hcode := code_lt size
  refine reads_of_group 5 fun op hop => ?_
  rw [opword] at hop
  have hsize : (op >>> 6) &&& 3 = size.code := by
    rw [shiftRight_6, Bits.land_3]
    omega
  have hthree : ¬ size.code = 3 := by omega
  have hname : (if op &&& 0x100 ≠ 0 then "SUBQ".toList else "ADDQ".toList) =
      if subtract then "SUBQ".toList else "ADDQ".toList := by
    rw [land_0x100]
    cases subtract with
    | false => rw [if_neg (by rw [Bool.toNat_false] at hop; omega), if_neg Bool.false_ne_true]
    | true => rw [if_pos (by rw [Bool.toNat_true] at hop; omega), if_pos rfl]
  refine ⟨by omega, ?_⟩
  rw [decodeGroup, decode0101]
  dsimp only
  rw [hsize, if_neg hthree, hname]
  refine accepts_decodeUnary size (by omega) dst.fits ?_
  have hblank : ' ' ∉ if subtract then "SUBQ".toList else "ADDQ".toList := by
    cases subtract <;> decide
  exact ((((heads_size size 1).append hblank).append_right _).append_right _).append_right _

theorem reads_scc (cc : Fin 16) (dst : Operand .byte Ea.dataAlterable) :
    Reads base (.scc cc dst) := by
  have hcc := cc.isLt
  have hfield := field_eq dst.ea
  have hmode := mode_of_dataAlterable dst.allowed
  refine reads_of_group 5 fun op hop => ?_
  rw [opword] at hop
  have hcond : op / 256 % 16 = cc := by omega
  refine ⟨by omega, ?_⟩
  rw [decodeGroup, decode0101]
  simp only [shiftRight_3, shiftRight_6, shiftRight_8, Bits.land_3, Bits.land_7, Bits.land_15,
    hcond]
  simp (disch := omega) only [↓if_neg, ↓if_pos]
  have hhead : ∀ cc : Fin 16, Heads ('S' :: conditionName cc)
      ('S' :: ljust 7 (ccNames.getD cc []) ++ [' ']) := by decide
  exact accepts_decodeUnary .byte (by omega) dst.fits (hhead cc)

theorem reads_dbcc (cc : Fin 16) (d : Reg) (disp : Word) : Reads base (.dbcc cc d disp) := by
  have hcc := cc.isLt
  have hd := d.isLt
  refine reads_of_group 5 fun op hop => ?_
  rw [opword] at hop
  have hcond : op / 256 % 16 = cc := by omega
  refine ⟨by omega, ?_⟩
  rw [decodeGroup, decode0101]
  simp only [shiftRight_3, shiftRight_6, Bits.land_3, Bits.land_7]
  simp (disch := omega) only [↓if_pos]
  refine accepts_sword_bind disp fun _ => accepts_addr_bind fun _ => accepts_pure ?_
  have hhead : ∀ cc : Fin 16, Heads ("DB".toList ++ conditionName cc)
      ("DB".toList ++ ljust 6 (ccNames.getD cc []) ++ " D".toList) := by decide
  rw [shiftRight_8, Bits.land_15, hcond]
  exact ((((hhead cc).append_right _).append_right _).append_right _).recognised

/-- The text of a branch is its name and its size, in front of the target. -/
theorem exists_branchText (cc : Fin 16) (sz : Text) (target : Int) :
    ∃ rest, branchText cc sz target = branchName cc ++ ljust 5 sz ++ rest := by
  obtain ⟨cond, hcond⟩ := cc
  match cond, hcond with
  | 0, _ => exact ⟨_, List.append_assoc _ _ _⟩
  | 1, _ => exact ⟨_, List.append_assoc _ _ _⟩
  | n + 2, h =>
    have hname : branchName ⟨n + 2, h⟩ = 'B' :: ccNames.getD (n + 2) [] := by
      rw [branchName, if_neg (Nat.succ_ne_zero _), if_neg (by simp)]
      rfl
    rw [hname]
    exact ⟨_, rfl⟩

theorem named_branchText (cc : Fin 16) {sz : Text} (hsz : Heads sz (ljust 5 sz)) (target : Int) :
    Named (branchName cc ++ sz) (some (branchText cc sz target)) := by
  obtain ⟨rest, hrest⟩ := exists_branchText cc sz target
  have hblank : ∀ cc : Fin 16, ' ' ∉ branchName cc := by decide
  rw [hrest]
  exact (hsz.append (hblank cc)).named rest

theorem reads_branchWord (cc : Fin 16) (disp : Word) : Reads base (.branchWord cc disp) := by
  have hcc := cc.isLt
  refine reads_of_group 6 fun op hop => ?_
  rw [opword] at hop
  have hcond : op / 256 % 16 = cc := by omega
  have hlow : op % 256 = 0 := by omega
  refine ⟨by omega, ?_⟩
  rw [decodeGroup, decodeBranch, shiftRight_8, Bits.land_15, Bits.land_255, hcond, hlow]
  refine accepts_addr_bind fun _ => ?_
  rw [if_pos rfl]
  exact accepts_sword_bind disp fun _ => accepts_pure (named_branchText cc (by decide) _)

theorem reads_branchShort (cc : Fin 16) (disp : Fin 256) (h : disp.val ≠ 0 ∧ disp.val ≠ 255) :
    Reads base (.branchShort cc disp h) := by
  have hcc := cc.isLt
  have hdisp := disp.isLt
  refine reads_of_group 6 fun op hop => ?_
  rw [opword] at hop
  have hcond : op / 256 % 16 = cc := by omega
  have hlow : op % 256 = disp := by omega
  refine ⟨by omega, ?_⟩
  rw [decodeGroup, decodeBranch, shiftRight_8, Bits.land_15, Bits.land_255, hcond, hlow]
  refine accepts_addr_bind fun _ => ?_
  rw [if_neg h.1, if_neg h.2]
  exact accepts_pure (named_branchText cc (by decide) _)

theorem reads_moveq (d : Reg) (n : Fin 256) : Reads base (.moveq d n) := by
  have hd := d.isLt
  have hn := n.isLt
  refine reads_of_group 7 fun op hop => ?_
  rw [opword] at hop
  have hbit : ¬ op &&& 0x100 ≠ 0 := by
    rw [land_0x100]
    omega
  refine ⟨by omega, ?_⟩
  rw [decodeGroup, decodeMoveq, if_neg hbit]
  have hhead : Heads "MOVEQ".toList "MOVEQ    #".toList := by decide
  exact accepts_pure ((((hhead.append_right _).append_right _).append_right _).recognised)

/-! ### Arithmetic -/

/-- The direction of a dyadic operation is in the operation mode, above the size. -/
theorem accepts_decodeDyadic {size : Size} {ea : Ea} {name : Text} (width : Nat)
    (hop : op % 64 = ea.field) (hsize : op / 64 % 4 = size.code) (hfits : ea.fits size = true)
    (hname : ' ' ∉ name) :
    Accepts (decodeDyadic base op name (width + 3)) (wordBytes ea.extension)
      (Named (name ++ size.suffix)) := by
  have hcode := code_lt size
  have hthree : ¬ size.code = 3 := by omega
  have hbits : ((op >>> 6) &&& 7) &&& 3 = size.code := by
    rw [shiftRight_6, Bits.land_7, Bits.land_3]
    omega
  have hhead := (heads_size size width).append hname
  rw [decodeDyadic, hbits, if_neg hthree]
  refine accepts_ite (fun _ => ?_) fun _ => ?_
  · exact accepts_decodeUnary size hop hfits hhead
  · exact accepts_decodeUnary size hop hfits ((hhead.append_right _).append_right _)

theorem named_registerPair {name head : Text} (hhead : Heads name head) (memory : Bool) :
    Named name (some (registerPair op head memory)) := by
  cases memory with
  | false => exact ((hhead.append_right _).append_right _).append_right _ |>.recognised
  | true =>
    exact ((((hhead.append_right _).append_right _).append_right _).append_right _).append_right _
      |>.recognised

theorem reads_toRegister (o : RegisterOp) (size : Size) (d : Reg) (src : Operand size o.source) :
    Reads base (.toRegister o size d src) := by
  have hd := d.isLt
  have hfield := field_eq src.ea
  have hcode := code_lt size
  refine reads_of_group o.code fun op hop => ?_
  rw [opword] at hop
  have ho : o.code < 16 := by cases o <;> decide
  refine ⟨by omega, ?_⟩
  have hmode : op / 64 % 8 = size.code := by omega
  cases o with
  | or =>
    rw [RegisterOp.code, decodeGroup, decode1000]
    simp only [shiftRight_6, Bits.land_7]
    simp (disch := omega) only [↓if_neg]
    exact accepts_decodeDyadic 3 (by omega) (by omega) src.fits (by decide)
  | sub | add =>
    rw [RegisterOp.code, decodeGroup, decodeAddsub]
    simp only [shiftRight_6, Bits.land_7]
    simp (disch := omega) only [↓if_neg]
    exact accepts_decodeDyadic 3 (by omega) (by omega) src.fits (by decide)
  | cmp =>
    rw [RegisterOp.code, decodeGroup, decode1011]
    simp only [shiftRight_6, Bits.land_7, hmode]
    simp (disch := omega) only [↓if_neg, ↓if_pos]
    exact accepts_decodeUnary size (by omega) src.fits ((heads_size size 2).append (by decide))
  | and =>
    rw [RegisterOp.code, decodeGroup, decode1100]
    simp only [shiftRight_6, Bits.land_7]
    simp (disch := omega) only [↓if_neg]
    exact accepts_decodeDyadic 2 (by omega) (by omega) src.fits (by decide)

theorem mode_of_target {o : MemoryOp} {ea : Ea} (h : o.target ea = true) :
    2 ≤ ea.mode ∨ o = .eor ∧ ea.mode ≠ 1 := by
  cases o with
  | eor => exact .inr ⟨rfl, mode_of_dataAlterable h⟩
  | or | sub | and | add => exact .inl (mode_of_memoryAlterable h)

theorem reads_toMemory (o : MemoryOp) (size : Size) (d : Reg) (dst : Operand size o.target) :
    Reads base (.toMemory o size d dst) := by
  have hd := d.isLt
  have hfield := field_eq dst.ea
  have hcode := code_lt size
  have htarget := mode_of_target dst.allowed
  refine reads_of_group o.code fun op hop => ?_
  rw [opword] at hop
  have ho : o.code < 16 := by cases o <;> decide
  have hopmode : op / 64 % 8 = 4 + size.code := by omega
  have hmode : op / 8 % 8 = dst.ea.mode := by omega
  refine ⟨by omega, ?_⟩
  cases o with
  | or =>
    have hmemory : 2 ≤ dst.ea.mode := by simpa using htarget
    rw [MemoryOp.code, decodeGroup, decode1000]
    simp only [shiftRight_3, shiftRight_6, Bits.land_7]
    simp (disch := omega) only [↓if_neg]
    exact accepts_decodeDyadic 3 (by omega) (by omega) dst.fits (by decide)
  | sub | add =>
    have hmemory : 2 ≤ dst.ea.mode := by simpa using htarget
    rw [MemoryOp.code, decodeGroup, decodeAddsub]
    simp only [shiftRight_3, shiftRight_6, Bits.land_7]
    simp (disch := omega) only [↓if_neg]
    exact accepts_decodeDyadic 3 (by omega) (by omega) dst.fits (by decide)
  | eor =>
    have hsize : op / 64 % 8 - 4 = size.code := by omega
    rw [MemoryOp.code, decodeGroup, decode1011]
    simp only [shiftRight_3, shiftRight_6, Bits.land_7, hsize]
    simp (disch := omega) only [↓if_neg]
    exact accepts_decodeUnary size (by omega) dst.fits
      ((((heads_size size 2).append (by decide)).append_right _).append_right _)
  | and =>
    have hmemory : 2 ≤ dst.ea.mode := by simpa using htarget
    rw [MemoryOp.code, decodeGroup, decode1100]
    simp only [shiftRight_3, shiftRight_6, Bits.land_7]
    simp (disch := omega) only [↓if_neg]
    exact accepts_decodeDyadic 2 (by omega) (by omega) dst.fits (by decide)

theorem reads_address (o : AddressOp) (long : Bool) (a : Reg)
    (src : Operand (.ofLong long) Ea.any) : Reads base (.address o long a src) := by
  have ha := a.isLt
  have hfield := field_eq src.ea
  have hlong := long.toNat_lt
  refine reads_of_group o.code fun op hop => ?_
  rw [opword] at hop
  have ho : o.code < 16 := by cases o <;> decide
  have hopmode : op / 64 % 8 = 3 + 4 * long.toNat := by omega
  refine ⟨by omega, ?_⟩
  cases o with
  | suba | adda =>
    rw [AddressOp.code, decodeGroup, decodeAddsub]
    simp only [shiftRight_6, Bits.land_7]
    cases long with
    | false =>
      rw [Bool.toNat_false] at hopmode
      rw [if_pos hopmode]
      exact accepts_decodeUnary .word (by omega) src.fits
        (show Heads (AddressOp.name _ ++ _) _ by decide)
    | true =>
      rw [Bool.toNat_true] at hopmode
      rw [if_neg (by omega), if_pos hopmode]
      exact accepts_decodeUnary .long (by omega) src.fits
        (show Heads (AddressOp.name _ ++ _) _ by decide)
  | cmpa =>
    rw [AddressOp.code, decodeGroup, decode1011]
    simp only [shiftRight_6, Bits.land_7]
    cases long with
    | false =>
      rw [Bool.toNat_false] at hopmode
      rw [if_pos hopmode]
      exact accepts_decodeUnary .word (by omega) src.fits (show Heads "CMPA.W".toList _ by decide)
    | true =>
      rw [Bool.toNat_true] at hopmode
      rw [if_neg (by omega), if_pos hopmode]
      exact accepts_decodeUnary .long (by omega) src.fits (show Heads "CMPA.L".toList _ by decide)

theorem reads_mulDiv (o : MulDivOp) (d : Reg) (src : Operand .word Ea.data) :
    Reads base (.mulDiv o d src) := by
  have hd := d.isLt
  have hfield := field_eq src.ea
  refine reads_of_group (o.opword / 4096) fun op hop => ?_
  rw [opword] at hop
  cases o with
  | divu =>
    rw [MulDivOp.opword] at hop ⊢
    refine ⟨by omega, ?_⟩
    rw [decodeGroup, decode1000]
    simp only [shiftRight_6, Bits.land_7]
    simp (disch := omega) only [↓if_pos]
    exact accepts_decodeUnary .word (by omega) src.fits (show Heads "DIVU.W".toList _ by decide)
  | divs =>
    rw [MulDivOp.opword] at hop ⊢
    refine ⟨by omega, ?_⟩
    rw [decodeGroup, decode1000]
    simp only [shiftRight_6, Bits.land_7]
    simp (disch := omega) only [↓if_neg, ↓if_pos]
    exact accepts_decodeUnary .word (by omega) src.fits (show Heads "DIVS.W".toList _ by decide)
  | mulu =>
    rw [MulDivOp.opword] at hop ⊢
    refine ⟨by omega, ?_⟩
    rw [decodeGroup, decode1100]
    simp only [shiftRight_6, Bits.land_7]
    simp (disch := omega) only [↓if_pos]
    exact accepts_decodeUnary .word (by omega) src.fits (show Heads "MULU.W".toList _ by decide)
  | muls =>
    rw [MulDivOp.opword] at hop ⊢
    refine ⟨by omega, ?_⟩
    rw [decodeGroup, decode1100]
    simp only [shiftRight_6, Bits.land_7]
    simp (disch := omega) only [↓if_neg, ↓if_pos]
    exact accepts_decodeUnary .word (by omega) src.fits (show Heads "MULS.W".toList _ by decide)

theorem reads_decimal (o : DecimalOp) (memory : Bool) (y x : Reg) :
    Reads base (.decimal o memory y x) := by
  have hx := x.isLt
  have hy := y.isLt
  have hmemory := memory.toNat_lt
  refine reads_of_group (o.opword / 4096) fun op hop => ?_
  rw [opword] at hop
  cases o with
  | sbcd =>
    rw [DecimalOp.opword] at hop ⊢
    refine ⟨by omega, ?_⟩
    rw [decodeGroup, decode1000]
    simp only [shiftRight_3, shiftRight_6, Bits.land_7]
    simp (disch := omega) only [↓if_neg, ↓if_pos]
    exact accepts_pure (named_registerPair (show Heads "SBCD".toList _ by decide) _)
  | abcd =>
    rw [DecimalOp.opword] at hop ⊢
    refine ⟨by omega, ?_⟩
    rw [decodeGroup, decode1100]
    simp only [shiftRight_3, shiftRight_6, Bits.land_7]
    simp (disch := omega) only [↓if_neg, ↓if_pos]
    exact accepts_pure (named_registerPair (show Heads "ABCD".toList _ by decide) _)

theorem reads_extended (o : ExtendedOp) (size : Size) (memory : Bool) (y x : Reg) :
    Reads base (.extended o size memory y x) := by
  have hx := x.isLt
  have hy := y.isLt
  have hmemory := memory.toNat_lt
  have hcode := code_lt size
  refine reads_of_group (o.opword / 4096) fun op hop => ?_
  rw [opword] at hop
  cases o
  all_goals
    rw [ExtendedOp.opword] at hop ⊢
    have hsize : op / 64 % 8 % 4 = size.code := by omega
    refine ⟨by omega, ?_⟩
    rw [decodeGroup, decodeAddsub]
    simp only [shiftRight_3, shiftRight_6, Bits.land_3, Bits.land_7, hsize]
    simp (disch := omega) only [↓if_neg, ↓if_pos]
    exact accepts_pure (named_registerPair
      (((heads_size size 1).append (show ' ' ∉ ExtendedOp.name _ by decide)).append_right _) _)

theorem reads_cmpm (size : Size) (y x : Reg) : Reads base (.cmpm size y x) := by
  have hx := x.isLt
  have hy := y.isLt
  have hcode := code_lt size
  refine reads_of_group 0xB fun op hop => ?_
  rw [opword] at hop
  have hsize : op / 64 % 8 - 4 = size.code := by omega
  refine ⟨by omega, ?_⟩
  rw [decodeGroup, decode1011]
  simp only [shiftRight_3, shiftRight_6, Bits.land_7, hsize]
  simp (disch := omega) only [↓if_neg, ↓if_pos]
  have hhead := (heads_size size 1).append (show ' ' ∉ "CMPM".toList by decide)
  exact accepts_pure
    (((((hhead.append_right _).append_right _).append_right _).append_right _).append_right _
      |>.recognised)

theorem reads_exg (kind : Exchange) (x y : Reg) : Reads base (.exg kind x y) := by
  have hx := x.isLt
  have hy := y.isLt
  refine reads_of_group 0xC fun op hop => ?_
  rw [opword] at hop
  have hdata : Heads "EXG".toList "EXG      D".toList := by decide
  have haddress : Heads "EXG".toList "EXG      A".toList := by decide
  cases kind with
  | data =>
    rw [Exchange.opword] at hop
    refine ⟨by omega, ?_⟩
    rw [decodeGroup, decode1100]
    simp only [shiftRight_3, shiftRight_6, Bits.land_7]
    simp (disch := omega) only [↓if_neg, ↓if_pos]
    exact accepts_pure (((hdata.append_right _).append_right _).append_right _).recognised
  | address =>
    rw [Exchange.opword] at hop
    refine ⟨by omega, ?_⟩
    rw [decodeGroup, decode1100]
    simp only [shiftRight_3, shiftRight_6, Bits.land_7]
    simp (disch := omega) only [↓if_neg, ↓if_pos]
    exact accepts_pure (((haddress.append_right _).append_right _).append_right _).recognised
  | mixed =>
    rw [Exchange.opword] at hop
    refine ⟨by omega, ?_⟩
    rw [decodeGroup, decode1100]
    simp only [shiftRight_3, shiftRight_6, Bits.land_7]
    simp (disch := omega) only [↓if_neg, ↓if_pos]
    exact accepts_pure (((hdata.append_right _).append_right _).append_right _).recognised

/-! ### Shifts -/

/-- The name of a shift in its direction. -/
theorem shift_name (op : Nat) (o : ShiftOp) (left : Bool) (h : op / 256 % 2 = left.toNat) :
    shiftNames.getD o.code [] ++ [if op &&& 0x100 ≠ 0 then 'L' else 'R'] = o.name left := by
  have hdirection : (if op &&& 0x100 ≠ 0 then 'L' else 'R') = if left then 'L' else 'R' := by
    rw [land_0x100, h]
    cases left <;> rfl
  rw [hdirection]
  cases o <;> rfl

theorem reads_shiftRegister (o : ShiftOp) (left : Bool) (size : Size) (byRegister : Bool)
    (count : Fin 8) (d : Reg) : Reads base (.shiftRegister o left size byRegister count d) := by
  have hd := d.isLt
  have hcount := count.isLt
  have hleft := left.toNat_lt
  have hby := byRegister.toNat_lt
  have hcode := code_lt size
  have ho : o.code < 4 := by cases o <;> decide
  refine reads_of_group 0xE fun op hop => ?_
  rw [opword] at hop
  have hsize : (op >>> 6) &&& 3 = size.code := by
    rw [shiftRight_6, Bits.land_3]
    omega
  have htype : (op >>> 3) &&& 3 = o.code := by
    rw [shiftRight_3, Bits.land_3]
    omega
  have hthree : ¬ size.code = 3 := by omega
  have hname := shift_name op o left (by omega)
  have hblank : ' ' ∉ o.name left := by cases o <;> cases left <;> decide
  have hhead := (heads_size size 2).append hblank
  refine ⟨by omega, ?_⟩
  rw [decodeGroup, decodeShift]
  dsimp only
  rw [hsize, htype, hname, if_neg hthree]
  refine accepts_ite (fun _ => ?_) fun _ => ?_
  · exact accepts_pure ((hhead.append_right _).append_right _).recognised
  · exact accepts_pure ((hhead.append_right _).append_right _).recognised

theorem reads_shiftMemory (o : ShiftOp) (left : Bool) (dst : Operand .word Ea.memoryAlterable) :
    Reads base (.shiftMemory o left dst) := by
  have hfield := field_eq dst.ea
  have hleft := left.toNat_lt
  have ho : o.code < 4 := by cases o <;> decide
  refine reads_of_group 0xE fun op hop => ?_
  rw [opword] at hop
  have hsize : (op >>> 6) &&& 3 = 3 := by
    rw [shiftRight_6, Bits.land_3]
    omega
  have htype : (op >>> 9) &&& 3 = o.code := by
    rw [shiftRight_9, Bits.land_3]
    omega
  have hname := shift_name op o left (by omega)
  have hhead : Heads (o.name left) (ljust 9 (o.name left)) := by cases o <;> cases left <;> decide
  refine ⟨by omega, ?_⟩
  rw [decodeGroup, decodeShift]
  dsimp only
  rw [hsize, htype, hname, if_pos rfl]
  exact accepts_decodeUnary .word (by omega) dst.fits hhead

end AmigaDevbench.Disasm
