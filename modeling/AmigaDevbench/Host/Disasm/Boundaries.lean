import AmigaDevbench.Host.Disasm.Groups
import AmigaDevbench.Host.Disasm.Miscellaneous

/-!
# Instruction boundaries

Instructions one behind the other are listed one by one, up to the first move to the condition
codes.
-/

namespace AmigaDevbench.Disasm

open Decoder M68000 M68000.Instruction

variable {base : Int}

/-- A move to the condition codes, which the test for negations catches. -/
def MovesToCcr : Instruction → Prop
  | moveToCcr _ => True
  | _ => False

theorem reads_of_not_movesToCcr (i : Instruction) (h : ¬ MovesToCcr i) : Reads base i := by
  cases i with
  | immediate o size imm dst => exact reads_immediate o size imm dst
  | logicCcr o imm => exact reads_logicCcr o imm
  | logicSr o imm => exact reads_logicSr o imm
  | bitDynamic o d dst => exact reads_bitDynamic o d dst
  | bitStatic o n dst => exact reads_bitStatic o n dst
  | movep store long d a disp => exact reads_movep store long d a disp
  | move size src dst => exact reads_move size src dst
  | movea long src a => exact reads_movea long src a
  | unary o size dst => exact reads_unary o size dst
  | moveFromSr dst => exact reads_moveFromSr dst
  | moveToCcr src => exact absurd trivial h
  | moveToSr src => exact reads_moveToSr src
  | nbcd dst => exact reads_nbcd dst
  | tas dst => exact reads_tas dst
  | swap d => exact reads_swap d
  | ext long d => exact reads_ext long d
  | pea src => exact reads_pea src
  | lea a src => exact reads_lea a src
  | jsr target => exact reads_jsr target
  | jmp target => exact reads_jmp target
  | chk d src => exact reads_chk d src
  | movemStore long mask dst => exact reads_movemStore long mask dst
  | movemLoad long mask src => exact reads_movemLoad long mask src
  | trap vector => exact reads_trap vector
  | link a disp => exact reads_link a disp
  | unlk a => exact reads_unlk a
  | moveUsp fromUsp a => exact reads_moveUsp fromUsp a
  | simple o => exact reads_simple o
  | stop imm => exact reads_stop imm
  | quick subtract n size dst => exact reads_quick subtract n size dst
  | scc cc dst => exact reads_scc cc dst
  | dbcc cc d disp => exact reads_dbcc cc d disp
  | branchShort cc disp hdisp => exact reads_branchShort cc disp hdisp
  | branchWord cc disp => exact reads_branchWord cc disp
  | moveq d n => exact reads_moveq d n
  | toRegister o size d src => exact reads_toRegister o size d src
  | toMemory o size d dst => exact reads_toMemory o size d dst
  | address o long a src => exact reads_address o long a src
  | mulDiv o d src => exact reads_mulDiv o d src
  | decimal o memory y x => exact reads_decimal o memory y x
  | extended o size memory y x => exact reads_extended o size memory y x
  | cmpm size y x => exact reads_cmpm size y x
  | exg kind x y => exact reads_exg kind x y
  | shiftRegister o left size byRegister count d =>
    exact reads_shiftRegister o left size byRegister count d
  | shiftMemory o left dst => exact reads_shiftMemory o left dst

/-! ### One entry -/

/-- The address, the length and the mnemonic of an entry. -/
def Entry.place (e : Entry) : Int × Nat × Text := (e.address, e.length, e.mnemonic)

variable {i : Instruction} {rest : Bytes} {c count : Nat}

/-- The operation word comes first. -/
theorem word_bytes (c : Nat) (rest : Bytes) (hlt : i.opword < 65536) : word ⟨c, i.bytes ++ rest⟩ =
    .ok (i.opword, ⟨c + 2, wordBytes i.extension ++ rest⟩) := by
  obtain ⟨n, hn, rfl⟩ := accepts_word hlt c (wordBytes i.extension ++ rest)
  rw [Bytes.length_bigEndian] at hn
  rw [Instruction.bytes, List.append_assoc]
  exact hn

/-- An instruction that is recognised has its own entry, and the next one begins behind it. -/
theorem entries_recognised (count c : Nat) (rest : Bytes) (h : Reads base i) :
    ∃ e, e.place = (base + c, i.bytes.length, i.mnemonic) ∧
      entries base (count + 1) ⟨c, i.bytes ++ rest⟩ =
        e :: entries base count ⟨c + i.bytes.length, rest⟩ := by
  obtain ⟨r, hone, text, rfl, hname⟩ := accepts_decodeOne h c rest
  refine ⟨⟨base + c, hexUpper i.bytes, text⟩, ?_, ?_⟩
  · rw [Entry.place, Entry.length, Entry.mnemonic, length_hexUpper, hname,
      Nat.mul_div_cancel_left _ (by omega)]
  · rw [entries, word_bytes c rest h.1]
    dsimp only
    rw [hone]
    dsimp only
    rw [Nat.add_sub_cancel_left, List.take_left]

theorem mnemonic_wordEntry (address : Int) (w : Nat) :
    (wordEntry address w).mnemonic = "DC.W".toList := by
  have hhead : Heads "DC.W".toList "DC.W     $".toList := by decide
  exact (hhead.append_right _).1

/-- A word that no instruction is recognised by is not listed under the name of one. -/
theorem wordEntry_place_ne (address : Int) (w : Nat) (h : i.mnemonic ≠ "DC.W".toList) :
    (wordEntry address w).place ≠ (address, i.bytes.length, i.mnemonic) := by
  intro hplace
  rw [Entry.place, mnemonic_wordEntry] at hplace
  exact h (Prod.mk.inj (Prod.mk.inj hplace).2).2.symm

theorem opword_moveToCcr_lt (src : Operand .word Ea.data) : (moveToCcr src).opword < 65536 := by
  have hfield := field_eq src.ea
  rw [opword]
  omega

theorem decodeOne_moveToCcr (base : Int) (c : Nat) (rest : Bytes) (src : Operand .word Ea.data) :
    ∃ t, decodeOne base ⟨c, (moveToCcr src).bytes ++ rest⟩ = .ok (none, t) := by
  have hgroup (s : Input) : decodeGroup base (((moveToCcr src).opword >>> 12) &&& 0xF)
      (moveToCcr src).opword s = .ok (none, s) := by
    rw [decodeGroup_moveToCcr rfl]
    rfl
  exact ⟨_, bind_eq_ok.mpr ⟨_, _, word_bytes c rest (opword_moveToCcr_lt src), hgroup _⟩⟩

/-- A move to the condition codes has no entry of its mnemonic. -/
theorem entries_movesToCcr (base : Int) (count c : Nat) (rest : Bytes) (h : MovesToCcr i) :
    ∃ e es, entries base (count + 1) ⟨c, i.bytes ++ rest⟩ = e :: es ∧
      e.place ≠ (base + c, i.bytes.length, i.mnemonic) := by
  cases i with
  | moveToCcr src =>
    obtain ⟨t, hone⟩ := decodeOne_moveToCcr base c rest src
    have hword := word_bytes c rest (opword_moveToCcr_lt src)
    rw [entries, hword]
    dsimp only
    rw [hone]
    exact ⟨_, _, rfl, wordEntry_place_ne _ _ (show "MOVE".toList ≠ _ by decide)⟩
  | _ => exact h.elim

/-! ### Listings -/

/-- The listing of the instructions has an entry for each of them, up to the limit. -/
def Recovers (base count : Int) (is : List Instruction) : Prop :=
  (disassemble (layout is) base count).map Entry.place = boundaries base (is.take count.toNat)

theorem entries_nil (base : Int) (count c : Nat) : entries base count ⟨c, []⟩ = [] := by
  cases count <;> rfl

theorem entries_recover_iff (base : Int) (count : Nat) : ∀ (is : List Instruction) (c : Nat),
    (entries base count ⟨c, layout is⟩).map Entry.place =
      boundaries (base + c) (is.take count) ↔ ∀ i ∈ is.take count, ¬ MovesToCcr i := by
  induction count with
  | zero =>
    intro is c
    rw [List.take_zero, entries, boundaries]
    exact iff_of_true rfl fun _ hi => absurd hi List.not_mem_nil
  | succ count ih =>
    intro is c
    cases is with
    | nil =>
      rw [List.take_nil, layout, List.flatMap_nil, entries_nil, boundaries]
      exact iff_of_true rfl fun _ hi => absurd hi List.not_mem_nil
    | cons i is =>
      rw [List.take_succ_cons, List.forall_mem_cons, layout, List.flatMap_cons, boundaries]
      by_cases h : MovesToCcr i
      · obtain ⟨e, es, hentries, hne⟩ := entries_movesToCcr base count c (layout is) h
        rw [← layout, hentries, List.map_cons]
        exact iff_of_false (fun heq => hne (List.cons.inj heq).1) fun hall => hall.1 h
      · obtain ⟨e, hplace, hentries⟩ :=
          entries_recognised count c (layout is) (reads_of_not_movesToCcr i h)
        rw [← layout, hentries, List.map_cons, hplace, List.cons.injEq, Int.add_assoc,
          ← Int.natCast_add, ih]
        simp [h]

/-- The disassembler recovers the boundaries of valid instructions exactly if none of those within
its limit moves to the condition codes. -/
theorem recovers_iff (base count : Int) (is : List Instruction) :
    Recovers base count is ↔ ∀ i ∈ is.take count.toNat, ¬ MovesToCcr i := by
  have h := entries_recover_iff base count.toNat is 0
  rw [Int.natCast_zero, Int.add_zero] at h
  exact h

/-- `MOVE D0,CCR` alone is not listed as itself. -/
theorem not_recovers : ¬ Recovers 0x1000 20 [.moveToCcr ⟨.dataReg 0, rfl, rfl⟩] := by
  intro h
  obtain ⟨e, es, hentries, hne⟩ := entries_movesToCcr 0x1000 19 0 []
    (show MovesToCcr (.moveToCcr ⟨.dataReg 0, rfl, rfl⟩) from trivial)
  rw [List.append_nil] at hentries
  have hlisting := congrArg (List.map Entry.place) hentries
  exact hne (List.cons.inj (hlisting.symm.trans h)).1

end AmigaDevbench.Disasm
