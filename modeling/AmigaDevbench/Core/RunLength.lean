import Mathlib.Algebra.GroupWithZero.Nat
import Mathlib.Data.List.Basic

/-!
# Runs and literals

A sequence is cut into packets: a run is one element and how often it stands there, a literal the
elements themselves. A run has at least two elements, and no packet more than 128. How many packets
of each kind there are depends on the lengths of the stretches of equal elements only.
-/

namespace AmigaDevbench.RunLength

inductive Packet (α : Type) where
  | run (n : Nat) (a : α)
  | literal (elements : List α)

/-- The elements of a packet. -/
def Packet.expand {α : Type} : Packet α → List α
  | run n a => List.replicate n a
  | literal elements => elements

variable {α : Type} [DecidableEq α]

/-- How many elements in front of the others are equal to `a`, up to `room` of them. -/
def repeats (a : α) : Nat → List α → Nat
  | 0, _ => 0
  | _ + 1, [] => 0
  | room + 1, b :: rest => if b = a then repeats a room rest + 1 else 0

/-- How many elements stand in front of a run, up to `room` of them. -/
def singles : Nat → List α → Nat
  | 0, _ => 0
  | _ + 1, [] => 0
  | _ + 1, [_] => 1
  | room + 1, a :: b :: rest => if a = b then 0 else singles room (b :: rest) + 1

theorem repeats_le (a : α) : ∀ (room : Nat) (l : List α),
    repeats a room l ≤ room ∧ repeats a room l ≤ l.length := by
  intro room l
  induction l generalizing room with
  | nil => cases room <;> exact ⟨Nat.zero_le _, Nat.le_refl 0⟩
  | cons b l ih =>
    cases room with
    | zero => exact ⟨Nat.le_refl 0, Nat.zero_le _⟩
    | succ room =>
      rw [repeats]
      split
      · exact ⟨Nat.succ_le_succ (ih room).1, Nat.succ_le_succ (ih room).2⟩
      · exact ⟨Nat.zero_le _, Nat.zero_le _⟩

theorem singles_le : ∀ (room : Nat) (l : List α),
    singles room l ≤ room ∧ singles room l ≤ l.length := by
  intro room l
  induction l generalizing room with
  | nil => cases room <;> exact ⟨Nat.zero_le _, Nat.le_refl 0⟩
  | cons a l ih =>
    cases room with
    | zero => exact ⟨Nat.le_refl 0, Nat.zero_le _⟩
    | succ room =>
      cases l with
      | nil => exact ⟨Nat.succ_le_succ (Nat.zero_le _), Nat.le_refl 1⟩
      | cons b l =>
        rw [singles]
        split
        · exact ⟨Nat.zero_le _, Nat.zero_le _⟩
        · exact ⟨Nat.succ_le_succ (ih room).1, Nat.succ_le_succ (ih room).2⟩

/-- The packets of a sequence: a run wherever one begins, and elements up to the next run. -/
def packets : List α → List (Packet α)
  | [] => []
  | a :: rest =>
    if 0 < repeats a 127 rest then
      .run (repeats a 127 rest + 1) a ::
        packets (rest.drop (repeats a 127 rest))
    else
      .literal (a :: rest.take (singles 127 rest)) ::
        packets (rest.drop (singles 127 rest))
termination_by l => l.length
decreasing_by
  · rw [List.length_drop, List.length_cons]
    omega
  · rw [List.length_drop, List.length_cons]
    omega

/-! ### The packets make up the sequence -/

/-- What was counted are copies. -/
theorem replicate_append_drop (a : α) (room : Nat) (l : List α) :
    List.replicate (repeats a room l) a ++ l.drop (repeats a room l) = l := by
  induction l generalizing room with
  | nil => cases room <;> rfl
  | cons b l ih =>
    cases room with
    | zero => rfl
    | succ room =>
      rw [repeats]
      split
      · next hb =>
        rw [List.replicate_succ, List.drop_succ_cons, List.cons_append, ih, hb]
      · rfl

theorem expand_packets (l : List α) : (packets l).flatMap Packet.expand = l := by
  fun_induction packets l with
  | case1 => rfl
  | case2 a rest hrun ih =>
    rw [List.flatMap_cons, ih, Packet.expand, List.replicate_succ, List.cons_append,
      replicate_append_drop]
  | case3 a rest hrun ih =>
    rw [List.flatMap_cons, ih, Packet.expand, List.cons_append, List.take_append_drop]

/-- The packets have a length that can be written in seven bits, less one. -/
def Packet.Fits : Packet α → Prop
  | run n _ => 0 < n ∧ n ≤ 128
  | literal elements => 0 < elements.length ∧ elements.length ≤ 128

theorem fits_of_mem_packets {l : List α} {packet : Packet α} (h : packet ∈ packets l) :
    packet.Fits := by
  fun_induction packets l with
  | case1 => cases h
  | case2 a rest hrun ih =>
    rcases List.mem_cons.mp h with rfl | h
    · have hle := (repeats_le a 127 rest).1
      exact ⟨Nat.succ_pos _, by omega⟩
    · exact ih h
  | case3 a rest hrun ih =>
    rcases List.mem_cons.mp h with rfl | h
    · have hle := (singles_le 127 rest).1
      refine ⟨Nat.succ_pos _, ?_⟩
      rw [List.length_cons, List.length_take]
      omega
    · exact ih h

/-! ### Stretches of equal elements -/

/-- The stretches from `n` elements equal to `a` on. -/
def stretchesFrom (a : α) (n : Nat) : List α → List Nat
  | [] => [n]
  | b :: rest =>
    if b = a ∧ n < 128 then stretchesFrom a (n + 1) rest
    else n :: stretchesFrom b 1 rest

/-- The lengths of the stretches of equal elements, each cut behind 128 elements. -/
def stretches : List α → List Nat
  | [] => []
  | a :: rest => stretchesFrom a 1 rest

/-- How many literals hold the elements that stand alone, behind `k` of them. -/
def groupsFrom (k : Nat) : List Nat → Nat
  | [] => (k + 127) / 128
  | n :: ns => if n = 1 then groupsFrom (k + 1) ns else (k + 127) / 128 + groupsFrom 0 ns

/-- How many literals hold the elements that stand alone: one for 128 of them in a row, or the rest
of a row. -/
def literals (ns : List Nat) : Nat := groupsFrom 0 ns

/-- How many elements the runs have from the third one on. -/
def surplus (ns : List Nat) : Nat := (ns.map (· - 2)).sum

theorem groupsFrom_add (k : Nat) (ns : List Nat) :
    groupsFrom (k + 128) ns = groupsFrom k ns + 1 := by
  induction ns generalizing k with
  | nil =>
    simp only [groupsFrom]
    omega
  | cons n ns ih =>
    simp only [groupsFrom]
    split
    · rw [Nat.add_right_comm, ih]
    · omega

theorem groupsFrom_replicate (k m : Nat) (ns : List Nat) :
    groupsFrom k (List.replicate m 1 ++ ns) = groupsFrom (k + m) ns := by
  induction m generalizing k with
  | zero => rfl
  | succ m ih =>
    rw [List.replicate_succ, List.cons_append, groupsFrom, if_pos rfl, ih, Nat.add_assoc,
      Nat.add_comm 1]

/-- Elements alone that end at a run or at the end are one literal. -/
theorem groupsFrom_of_run {k : Nat} (hpos : 0 < k) (hle : k ≤ 128) {ns : List Nat}
    (h : ∀ n ∈ ns.head?, n ≠ 1) : groupsFrom k ns = literals ns + 1 := by
  cases ns with
  | nil =>
    simp only [literals, groupsFrom]
    omega
  | cons n ns =>
    have hn : n ≠ 1 := h n rfl
    simp only [literals, groupsFrom, if_neg hn]
    omega

theorem literals_cons_of_ne {n : Nat} (hn : n ≠ 1) (ns : List Nat) :
    literals (n :: ns) = literals ns := by
  rw [literals, groupsFrom, if_neg hn, literals]
  omega

/-- A literal costs less than a run saves: there is at most one more of them than runs, but for the
full ones. -/
theorem groupsFrom_le (k : Nat) (ns : List Nat) : groupsFrom k ns ≤
    (k + ns.countP (· = 1)) / 128 + 1 + ns.countP (· ≠ 1) := by
  induction ns generalizing k with
  | nil =>
    simp only [groupsFrom, List.countP_nil]
    omega
  | cons n ns ih =>
    rw [groupsFrom]
    by_cases hn : n = 1
    · have := ih (k + 1)
      rw [if_pos hn, List.countP_cons_of_pos (by simpa using hn),
        List.countP_cons_of_neg (by simpa using hn)]
      omega
    · have := ih 0
      rw [if_neg hn, List.countP_cons_of_neg (by simpa using hn),
        List.countP_cons_of_pos (by simpa using hn)]
      omega

/-- A stretch goes on as long as its element is repeated. -/
theorem stretchesFrom_eq (a : α) (l : List α) : ∀ {n : Nat}, n ≤ 128 →
    stretchesFrom a n l =
      (n + repeats a (128 - n) l) :: stretches (l.drop (repeats a (128 - n) l)) := by
  induction l with
  | nil =>
    intro n _
    have hnone : repeats a (128 - n) [] = 0 := by
      cases 128 - n <;> rfl
    rw [hnone]
    rfl
  | cons b l ih =>
    intro n hn
    rw [stretchesFrom]
    split
    · next hb =>
      obtain ⟨room, hroom⟩ : ∃ room, 128 - n = room + 1 := ⟨128 - n - 1, by omega⟩
      have hrest : 128 - (n + 1) = room := by omega
      rw [ih hb.2, hroom, hrest, repeats, if_pos hb.1, List.drop_succ_cons, Nat.succ_add_eq_add_succ]
    · next hb =>
      have hnone : repeats a (128 - n) (b :: l) = 0 := by
        rcases Nat.lt_or_ge n 128 with hlt | hge
        · obtain ⟨room, hroom⟩ : ∃ room, 128 - n = room + 1 := ⟨128 - n - 1, by omega⟩
          rw [hroom, repeats, if_neg fun heq => hb ⟨heq, hlt⟩]
        · rw [Nat.sub_eq_zero_of_le hge, repeats]
      rw [hnone]
      rfl

theorem stretches_cons (a : α) (l : List α) : stretches (a :: l) =
    (repeats a 127 l + 1) :: stretches (l.drop (repeats a 127 l)) := by
  rw [stretches, stretchesFrom_eq a l (by decide), Nat.add_comm 1]

theorem repeats_eq_zero {a : α} {room : Nat} {l : List α} (h : ∀ b ∈ l.head?, b ≠ a) :
    repeats a room l = 0 := by
  cases room with
  | zero => rw [repeats]
  | succ room =>
    cases l with
    | nil => rw [repeats]
    | cons b l => rw [repeats, if_neg (h b rfl)]

/-- The elements of a literal stand alone, and so does none behind them, unless it is full. -/
theorem stretches_of_singles (room : Nat) (l : List α) :
    stretches l = List.replicate (singles room l) 1 ++ stretches (l.drop (singles room l)) ∧
      (singles room l = room ∨ ∀ n ∈ (stretches (l.drop (singles room l))).head?, n ≠ 1) := by
  induction l generalizing room with
  | nil =>
    refine ⟨?_, .inr fun n hn => ?_⟩
    · cases room <;> rfl
    · rw [List.drop_nil] at hn
      cases hn
  | cons a l ih =>
    cases room with
    | zero => exact ⟨rfl, .inl rfl⟩
    | succ room =>
      cases l with
      | nil => exact ⟨rfl, .inr fun n hn => by cases hn⟩
      | cons b l =>
        rw [singles]
        split
        · next hab =>
          refine ⟨rfl, .inr fun n hn => ?_⟩
          rw [List.drop_zero, stretches_cons] at hn
          obtain rfl := Option.some.inj hn
          have hfirst : repeats a 127 (b :: l) = repeats a 126 l + 1 := if_pos hab.symm
          omega
        · next hab =>
          obtain ⟨hstretches, hend⟩ := ih room
          have hone : stretches (a :: b :: l) = 1 :: stretches (b :: l) := by
            rw [stretches_cons, repeats_eq_zero fun c hc => Option.some.inj hc ▸ Ne.symm hab]
            rfl
          refine ⟨?_, hend.imp (congrArg Nat.succ) id⟩
          rw [hone, List.replicate_succ, List.drop_succ_cons, List.cons_append, ← hstretches]

/-! ### How many packets there are -/

/-- What the packets cost, with `cost` for an element and one more for each packet. -/
def Packet.cost (cost : Nat) : Packet α → Nat
  | run _ _ => cost + 1
  | literal elements => elements.length * cost + 1

/-- The packets are one for each run and the literals of the elements that stand alone. -/
theorem sum_cost_packets (cost : Nat) (l : List α) :
    ((packets l).map (Packet.cost cost)).sum =
      literals (stretches l) + (stretches l).countP (· = 1) * cost +
        (stretches l).countP (· ≠ 1) * (cost + 1) := by
  fun_induction packets l with
  | case1 => simp [stretches, literals, groupsFrom]
  | case2 a rest hrun ih =>
    have hne : repeats a 127 rest + 1 ≠ 1 := by omega
    rw [List.map_cons, List.sum_cons, ih, Packet.cost, stretches_cons, literals_cons_of_ne hne,
      List.countP_cons_of_neg (by simpa using hne), List.countP_cons_of_pos (by simpa using hne),
      Nat.add_mul (List.countP _ _) 1]
    omega
  | case3 a rest hrun ih =>
    have hzero : repeats a 127 rest = 0 := by omega
    obtain ⟨hstretches, hend⟩ := stretches_of_singles 127 rest
    have hle := singles_le 127 rest
    have hliterals : literals (stretches (a :: rest)) =
        literals (stretches (rest.drop (singles 127 rest))) + 1 := by
      have hone : groupsFrom 0 (1 :: stretches rest) = groupsFrom 1 (stretches rest) := if_pos rfl
      rw [stretches_cons, hzero, List.drop_zero, literals, hone, hstretches, groupsFrom_replicate]
      rcases hend with hfull | hend
      · rw [hfull]
        exact groupsFrom_add 0 _
      · exact groupsFrom_of_run (by omega) (by omega) hend
    have hones : (stretches (a :: rest)).countP (· = 1) =
        (stretches (rest.drop (singles 127 rest))).countP (· = 1) +
          (singles 127 rest + 1) := by
      rw [stretches_cons, hzero, List.drop_zero, hstretches,
        List.countP_cons_of_pos (by simp), List.countP_append, List.countP_replicate]
      simp only [decide_true, if_true]
      omega
    have hruns : (stretches (a :: rest)).countP (· ≠ 1) =
        (stretches (rest.drop (singles 127 rest))).countP (· ≠ 1) := by
      rw [stretches_cons, hzero, List.drop_zero, hstretches,
        List.countP_cons_of_neg (by simp), List.countP_append, List.countP_replicate]
      simp
    rw [List.map_cons, List.sum_cons, ih, Packet.cost, hliterals, hones, hruns, List.length_cons,
      List.length_take, Nat.min_eq_left hle.2, Nat.add_mul (List.countP _ _)]
    omega

/-- The stretches make up the sequence. -/
theorem sum_stretches (l : List α) : (stretches l).sum = l.length ∧ ∀ n ∈ stretches l, 0 < n := by
  fun_induction packets l with
  | case1 => exact ⟨rfl, fun n hn => by cases hn⟩
  | case2 a rest hrun ih =>
    have hle := repeats_le a 127 rest
    rw [stretches_cons]
    refine ⟨?_, List.forall_mem_cons.mpr ⟨Nat.succ_pos _, ih.2⟩⟩
    rw [List.sum_cons, ih.1, List.length_drop, List.length_cons]
    omega
  | case3 a rest hrun ih =>
    have hzero : repeats a 127 rest = 0 := by omega
    have hstretches := (stretches_of_singles 127 rest).1
    have hle := singles_le 127 rest
    rw [stretches_cons, hzero, List.drop_zero, hstretches]
    refine ⟨?_, List.forall_mem_cons.mpr ⟨Nat.one_pos, fun n hn => ?_⟩⟩
    · rw [List.sum_cons, List.sum_append, List.sum_replicate_nat, ih.1, List.length_drop,
        List.length_cons]
      omega
    · rcases List.mem_append.mp hn with hn | hn
      · exact (List.eq_of_mem_replicate hn) ▸ Nat.one_pos
      · exact ih.2 n hn

/-- Elements alone count once, and those of runs twice and more. -/
theorem sum_eq_surplus {ns : List Nat} (h : ∀ n ∈ ns, 0 < n) :
    ns.sum = ns.countP (· = 1) + 2 * ns.countP (· ≠ 1) + surplus ns := by
  induction ns with
  | nil => rfl
  | cons n ns ih =>
    have hrest := ih fun m hm => h m (List.mem_cons_of_mem n hm)
    have hpos := h n List.mem_cons_self
    rw [surplus] at hrest ⊢
    rw [List.sum_cons, List.map_cons, List.sum_cons, hrest]
    by_cases hn : n = 1
    · rw [List.countP_cons_of_pos (by simpa using hn), List.countP_cons_of_neg (by simpa using hn)]
      omega
    · rw [List.countP_cons_of_neg (by simpa using hn), List.countP_cons_of_pos (by simpa using hn)]
      omega

end AmigaDevbench.RunLength
