import Linux2Win.BlockMap
import Linux2Win.Programs

namespace Linux2Win.ExtentTree

open Bytes Devices Ext4Types Reader BlockMap Programs

def entries (node : List Byte) : Nat := (extentHeader node).ehEntries.toNat

structure ValidHeader (node : List Byte) : Prop where
  magic : (extentHeader node).ehMagic = extentMagic
  fits : 12 + 12 * entries node ≤ node.length

def childStart (node : List Byte) (hi i : Nat) : Nat :=
  if i < entries node then (extentIdxAt node i).eiBlock.toNat else hi

def extentEnd (ex : Ext4Extent) : Nat := ex.eeBlock.toNat + ex.len.toNat

/-- A tree of extent nodes over a range of logical blocks. The extents of a leaf are
sorted and disjoint, and each child of an index node has the range from its own
entry to the next. -/
inductive WellFormed (dev : Device Id) (rd : Ext4Reader) : List Byte → Nat → Nat → Prop
  | leaf {node : List Byte} {lo hi : Nat} (header : ValidHeader node)
      (depth : (extentHeader node).ehDepth = 0)
      (range : ∀ i < entries node, lo ≤ (extentAt node i).eeBlock.toNat ∧
        extentEnd (extentAt node i) ≤ hi)
      (ordered : ∀ i j, i < j → j < entries node →
        extentEnd (extentAt node i) ≤ (extentAt node j).eeBlock.toNat) :
      WellFormed dev rd node lo hi
  | index {node : List Byte} {lo hi : Nat} (child : Nat → List Byte) (header : ValidHeader node)
      (depth : (extentHeader node).ehDepth ≠ 0)
      (first : lo ≤ childStart node hi 0)
      (sorted : ∀ i < entries node, childStart node hi i ≤ childStart node hi (i + 1))
      (readable : ∀ i < entries node,
        readBlock dev (extentIdxAt node i).leaf rd.blockSize = pure (some (child i)))
      (below : ∀ i < entries node,
        WellFormed dev rd (child i) (childStart node hi i) (childStart node hi (i + 1))) :
      WellFormed dev rd node lo hi

inductive InTree (dev : Device Id) (rd : Ext4Reader) (ex : Ext4Extent) : List Byte → Prop
  | leaf {node : List Byte} {i : Nat} (depth : (extentHeader node).ehDepth = 0)
      (lt : i < entries node) (eq : extentAt node i = ex) : InTree dev rd ex node
  | index {node child : List Byte} {i : Nat} (depth : (extentHeader node).ehDepth ≠ 0)
      (lt : i < entries node)
      (read : readBlock dev (extentIdxAt node i).leaf rd.blockSize = pure (some child))
      (below : InTree dev rd ex child) : InTree dev rd ex node

def Spans (ex : Ext4Extent) (n : Nat) : Prop := ex.eeBlock.toNat ≤ n ∧ n < extentEnd ex

/-- What a search uses of an index node: the extents below an entry lie at or after its
first block, and before that of the next entry. -/
structure Children (dev : Device Id) (rd : Ext4Reader) (node : List Byte) (child : Nat → List Byte) :
    Prop where
  depth : (extentHeader node).ehDepth ≠ 0
  sorted : ∀ i j, i < j → j < entries node → (extentIdxAt node i).eiBlock ≤ (extentIdxAt node j).eiBlock
  readable : ∀ i < entries node,
    readBlock dev (extentIdxAt node i).leaf rd.blockSize = pure (some (child i))
  after : ∀ i < entries node, ∀ ex, InTree dev rd ex (child i) →
    (extentIdxAt node i).eiBlock.toNat ≤ ex.eeBlock.toNat
  before : ∀ i, i + 1 < entries node → ∀ ex, InTree dev rd ex (child i) →
    extentEnd ex ≤ (extentIdxAt node (i + 1)).eiBlock.toNat

/-- A tree in which blocks can be searched. It asks nothing of the entries below an
index node but where their extents lie. -/
inductive SearchTree (dev : Device Id) (rd : Ext4Reader) : List Byte → Prop
  | leaf {node : List Byte} (header : ValidHeader node) (depth : (extentHeader node).ehDepth = 0)
      (bounded : ∀ i < entries node, extentEnd (extentAt node i) ≤ 2 ^ 32 - 1)
      (sorted : ∀ i j, i < j → j < entries node →
        (extentAt node i).eeBlock ≤ (extentAt node j).eeBlock)
      (disjoint : ∀ i j, i < j → j < entries node → ∀ n, Spans (extentAt node i) n →
        ¬Spans (extentAt node j) n) :
      SearchTree dev rd node
  | index {node : List Byte} (child : Nat → List Byte) (header : ValidHeader node)
      (children : Children dev rd node child)
      (below : ∀ i < entries node, SearchTree dev rd (child i)) :
      SearchTree dev rd node

section Scan

variable {node : List Byte} (logicalBlock : UInt32)

theorem scanExtents_spec (i n : Nat) (hfits : 12 + 12 * (i + n) ≤ node.length) :
    ∃ r, scanExtents node logicalBlock i n = .ok r ∧
      ((r = none ∧ ∀ j, i ≤ j → j < i + n → (extentAt node j).covers logicalBlock = false) ∨
        ∃ j, i ≤ j ∧ j < i + n ∧ (extentAt node j).covers logicalBlock = true ∧
          r = some ((extentAt node j).physical logicalBlock)) := by
  induction n generalizing i with
  | zero => exact ⟨none, rfl, Or.inl ⟨rfl, fun j h1 h2 => by omega⟩⟩
  | succ n ih =>
      rw [scanExtents, if_neg (by omega)]
      cases hc : (extentAt node i).covers logicalBlock with
      | true =>
          exact ⟨_, if_pos hc, Or.inr ⟨i, le_rfl, by omega, hc, rfl⟩⟩
      | false =>
          obtain ⟨r, hr, hres⟩ := ih (i + 1) (by omega)
          refine ⟨r, by simpa only [hc, Bool.false_eq_true, if_false] using hr, ?_⟩
          rcases hres with ⟨rfl, hnone⟩ | ⟨j, hge, hlt, hcov, rfl⟩
          · refine Or.inl ⟨rfl, fun j hge hlt => ?_⟩
            rcases Nat.eq_or_lt_of_le hge with rfl | hgt
            · exact hc
            · exact hnone j hgt (by omega)
          · exact Or.inr ⟨j, by omega, by omega, hcov, rfl⟩

/-- The index loop stops at the last entry that starts at or before the block. -/
theorem scanIndex_spec (i n : Nat) (chosen : Option Ext4ExtentIdx)
    (hfits : 12 + 12 * (i + n) ≤ node.length) :
    ∃ c, scanIndex node logicalBlock i n chosen = .ok c ∧
      ((c = chosen ∧ (n = 0 ∨ logicalBlock < (extentIdxAt node i).eiBlock)) ∨
        ∃ j, i ≤ j ∧ j < i + n ∧ c = some (extentIdxAt node j) ∧
          (extentIdxAt node j).eiBlock ≤ logicalBlock ∧
          (j + 1 = i + n ∨ logicalBlock < (extentIdxAt node (j + 1)).eiBlock)) := by
  induction n generalizing i chosen with
  | zero => exact ⟨chosen, rfl, Or.inl ⟨rfl, Or.inl rfl⟩⟩
  | succ n ih =>
      rw [scanIndex, if_neg (by omega)]
      by_cases hge : logicalBlock ≥ (extentIdxAt node i).eiBlock
      · obtain ⟨c, hc, hres⟩ := ih (i + 1) (some (extentIdxAt node i)) (by omega)
        refine ⟨c, by simpa only [hge, if_true] using hc, Or.inr ?_⟩
        rcases hres with ⟨rfl, hstop⟩ | ⟨j, hij, hlt, rfl, hle, hstop⟩
        · exact ⟨i, le_rfl, by omega, rfl, hge, hstop.imp (fun h => by omega) id⟩
        · exact ⟨j, by omega, by omega, rfl, hle, hstop.imp (fun h => by omega) id⟩
      · exact ⟨chosen, if_neg hge, Or.inl ⟨rfl, Or.inr (UInt32.not_le.mp hge)⟩⟩

end Scan

section Ranges

variable {dev : Device Id} {rd : Ext4Reader} {node : List Byte} {lo hi : Nat}

theorem childStart_entries (node : List Byte) (hi : Nat) : childStart node hi (entries node) = hi :=
  if_neg (lt_irrefl _)

theorem childStart_lt (hi : Nat) {i : Nat} (h : i < entries node) :
    childStart node hi i = (extentIdxAt node i).eiBlock.toNat := if_pos h

theorem childStart_mono (sorted : ∀ i < entries node, childStart node hi i ≤ childStart node hi (i + 1))
    {i j : Nat} (hij : i ≤ j) (hj : j ≤ entries node) : childStart node hi i ≤ childStart node hi j := by
  induction j, hij using Nat.le_induction with
  | base => exact le_rfl
  | succ j hij ih => exact (ih (by omega)).trans (sorted j (by omega))

theorem inTree_range {ex : Ext4Extent} (h : WellFormed dev rd node lo hi)
    (hex : InTree dev rd ex node) : lo ≤ ex.eeBlock.toNat ∧ extentEnd ex ≤ hi := by
  induction h with
  | leaf header depth range ordered =>
      cases hex with
      | leaf _ lt eq => exact eq ▸ range _ lt
      | index depth' => exact absurd depth depth'
  | @index node lo hi child header depth first sorted readable below ih =>
      cases hex with
      | leaf depth' => exact absurd depth' depth
      | @index _ child' i _ lt read hbelow =>
          cases Option.some.inj (pure_injective ((readable i lt).symm.trans read))
          obtain ⟨hge, hle⟩ := ih i lt hbelow
          have hfirst := childStart_mono sorted (Nat.zero_le i) lt.le
          have hlast := childStart_mono sorted (by omega : i + 1 ≤ entries node) le_rfl
          rw [childStart_entries] at hlast
          omega

theorem covers_iff {ex : Ext4Extent} (h : extentEnd ex < 2 ^ 32) (logicalBlock : UInt32) :
    ex.covers logicalBlock = true ↔ Spans ex logicalBlock.toNat := by
  rw [extentEnd] at h
  rw [Spans]
  simp only [Ext4Extent.covers, Bool.and_eq_true, decide_eq_true_eq, ge_iff_le,
    UInt32.le_iff_toNat_le, UInt32.lt_iff_toNat_lt, UInt32.toNat_add, UInt16.toNat_toUInt32, extentEnd]
  rw [Nat.mod_eq_of_lt h]

end Ranges

section Lookup

variable (dev : Device Id) (rd : Ext4Reader)

def NodeAnswer (fuel : Nat) (node : List Byte) (logicalBlock : UInt32) (r : Option UInt64) : Prop :=
  match searchNode node logicalBlock with
  | .ok (.done found) => found = r
  | .ok (.child next) => parseExtentNode dev rd fuel next logicalBlock = pure r
  | .error _ => False

def IsPlace (node : List Byte) (logicalBlock : UInt32) (r : Option UInt64) : Prop :=
  ∀ physBlock, r = some physBlock ↔ ∃ ex, InTree dev rd ex node ∧
    ex.covers logicalBlock = true ∧ ex.physical logicalBlock = physBlock

variable {dev rd} {node : List Byte} {lo hi : Nat} {logicalBlock : UInt32}

theorem resolve_of_nodeAnswer {fuel : Nat} {inode : Ext4Inode} {r : Option UInt64}
    (h : NodeAnswer dev rd fuel inode.iBlock logicalBlock r) :
    resolveExtentBlock dev rd fuel inode logicalBlock = pure r := by
  rw [NodeAnswer] at h
  rw [resolveExtentBlock]
  split at h
  · rename_i hs
    simp only [hs, h]
  · rename_i hs
    simpa only [hs] using h
  · exact h.elim

theorem parse_of_nodeAnswer {fuel : Nat} {block : UInt64} {r : Option UInt64}
    (hread : readBlock dev block rd.blockSize = pure (some node))
    (h : NodeAnswer dev rd fuel node logicalBlock r) :
    parseExtentNode dev rd (fuel + 1) block logicalBlock = pure r := by
  rw [NodeAnswer] at h
  rw [parseExtentNode, hread, pure_bind]
  split at h
  · rename_i hs
    simp only [hs, h]
  · rename_i hs
    simpa only [hs] using h
  · exact h.elim

theorem searchNode_leaf (header : ValidHeader node) (depth : (extentHeader node).ehDepth = 0) :
    searchNode node logicalBlock =
      (scanExtents node logicalBlock 0 (entries node)).map NodeStep.done := by
  simp [searchNode, header.magic, depth, entries]

theorem searchNode_index (header : ValidHeader node) (depth : (extentHeader node).ehDepth ≠ 0) :
    searchNode node logicalBlock =
      (scanIndex node logicalBlock 0 (entries node) none).map descend := by
  simp [searchNode, header.magic, depth, entries]

theorem inTree_lt {ex : Ext4Extent} (h : SearchTree dev rd node) (hex : InTree dev rd ex node) :
    extentEnd ex < 2 ^ 32 := by
  induction h with
  | leaf header depth bounded sorted disjoint =>
      cases hex with
      | leaf _ lt eq =>
          have := bounded _ lt
          rw [← eq]
          omega
      | index depth' => exact absurd depth depth'
  | @index node child header children below ih =>
      cases hex with
      | leaf depth' => exact absurd depth' children.depth
      | @index _ child' i _ lt read hbelow =>
          cases Option.some.inj (pure_injective ((children.readable i lt).symm.trans read))
          exact ih i lt hbelow

theorem leaf_isPlace (depth : (extentHeader node).ehDepth = 0)
    (bounded : ∀ i < entries node, extentEnd (extentAt node i) ≤ 2 ^ 32 - 1)
    (disjoint : ∀ i j, i < j → j < entries node → ∀ n, Spans (extentAt node i) n →
      ¬Spans (extentAt node j) n) {r : Option UInt64}
    (hres : (r = none ∧
        ∀ j, 0 ≤ j → j < 0 + entries node → (extentAt node j).covers logicalBlock = false) ∨
      ∃ j, 0 ≤ j ∧ j < 0 + entries node ∧ (extentAt node j).covers logicalBlock = true ∧
        r = some ((extentAt node j).physical logicalBlock)) :
    IsPlace dev rd node logicalBlock r := by
  intro physBlock
  rcases hres with ⟨rfl, hnone⟩ | ⟨j, _, hj, hcov, rfl⟩
  · apply iff_of_false nofun
    rintro ⟨ex, hex, hcov, _⟩
    cases hex with
    | leaf _ lt eq =>
        rw [← eq, hnone _ (Nat.zero_le _) (by omega)] at hcov
        cases hcov
    | index depth' => exact depth' depth
  · rw [Nat.zero_add] at hj
    constructor
    · rintro ⟨⟩
      exact ⟨_, .leaf depth hj rfl, hcov, rfl⟩
    · rintro ⟨ex, hex, hcov', rfl⟩
      cases hex with
      | index depth' => exact absurd depth depth'
      | @leaf _ i _ lt eq =>
          subst eq
          have hi' := bounded i lt
          have hj' := bounded j hj
          rw [covers_iff (by omega)] at hcov hcov'
          obtain rfl : i = j := by
            rcases Nat.lt_trichotomy i j with hlt | heq | hgt
            · exact absurd hcov (disjoint i j hlt hj _ hcov')
            · exact heq
            · exact absurd hcov' (disjoint j i hgt lt _ hcov)
          rfl

namespace Children

variable {child : Nat → List Byte}

/-- An extent of the tree that covers the block lies below an entry that the block
belongs to. -/
theorem inTree (h : Children dev rd node child)
    (hall : ∀ ex, InTree dev rd ex node → extentEnd ex < 2 ^ 32) {ex : Ext4Extent}
    (hex : InTree dev rd ex node) (hcov : ex.covers logicalBlock = true) :
    ∃ i < entries node, InTree dev rd ex (child i) ∧ (extentIdxAt node i).eiBlock ≤ logicalBlock ∧
      (i + 1 < entries node → logicalBlock < (extentIdxAt node (i + 1)).eiBlock) := by
  obtain ⟨hge, hlt⟩ := (covers_iff (hall ex hex) logicalBlock).mp hcov
  cases hex with
  | leaf depth' => exact absurd depth' h.depth
  | @index _ child' i _ lt read hin =>
      cases Option.some.inj (pure_injective ((h.readable i lt).symm.trans read))
      refine ⟨i, lt, hin, ?_, fun hnext => ?_⟩
      · exact UInt32.le_iff_toNat_le.mpr ((h.after i lt ex hin).trans hge)
      · exact UInt32.lt_iff_toNat_lt.mpr (hlt.trans_le (h.before i hnext ex hin))

theorem chosen_unique (h : Children dev rd node child) {i j : Nat} (lt : i < entries node)
    (hj : j < entries node) (hle : (extentIdxAt node j).eiBlock ≤ logicalBlock)
    (hstop : j + 1 = entries node ∨ logicalBlock < (extentIdxAt node (j + 1)).eiBlock)
    (hge : (extentIdxAt node i).eiBlock ≤ logicalBlock)
    (hlt : i + 1 < entries node → logicalBlock < (extentIdxAt node (i + 1)).eiBlock) : i = j := by
  have hmono : ∀ a b, a ≤ b → b < entries node →
      (extentIdxAt node a).eiBlock ≤ (extentIdxAt node b).eiBlock := by
    intro a b hab hb
    rcases Nat.eq_or_lt_of_le hab with rfl | hab
    · exact UInt32.le_refl _
    · exact h.sorted a b hab hb
  rcases Nat.lt_trichotomy i j with hij | heq | hji
  · have hnext := UInt32.lt_of_lt_of_le (hlt (by omega)) (hmono (i + 1) j hij hj)
    exact absurd hle (UInt32.not_le.mpr hnext)
  · exact heq
  · have hnext := UInt32.lt_of_lt_of_le (hstop.resolve_left (by omega)) (hmono (j + 1) i hji lt)
    exact absurd hge (UInt32.not_le.mpr hnext)

theorem none_isPlace (h : Children dev rd node child)
    (hall : ∀ ex, InTree dev rd ex node → extentEnd ex < 2 ^ 32)
    (hstop : entries node = 0 ∨ logicalBlock < (extentIdxAt node 0).eiBlock) :
    IsPlace dev rd node logicalBlock none := by
  refine fun physBlock => iff_of_false nofun ?_
  rintro ⟨ex, hex, hcov, _⟩
  obtain ⟨i, lt, _, hge, _⟩ := h.inTree hall hex hcov
  rcases hstop with h0 | hlt
  · omega
  · rcases Nat.eq_zero_or_pos i with rfl | hpos
    · exact absurd hge (UInt32.not_le.mpr hlt)
    · exact absurd hge (UInt32.not_le.mpr (UInt32.lt_of_lt_of_le hlt (h.sorted 0 i hpos lt)))

theorem chosen_isPlace (h : Children dev rd node child)
    (hall : ∀ ex, InTree dev rd ex node → extentEnd ex < 2 ^ 32) {j : Nat}
    (hj : j < entries node) (hle : (extentIdxAt node j).eiBlock ≤ logicalBlock)
    (hstop : j + 1 = entries node ∨ logicalBlock < (extentIdxAt node (j + 1)).eiBlock)
    {r : Option UInt64} (hplace : IsPlace dev rd (child j) logicalBlock r) :
    IsPlace dev rd node logicalBlock r := by
  refine fun physBlock => (hplace physBlock).trans ⟨?_, ?_⟩
  · rintro ⟨ex, hex, hcov, hphys⟩
    exact ⟨ex, .index h.depth hj (h.readable j hj) hex, hcov, hphys⟩
  · rintro ⟨ex, hex, hcov, hphys⟩
    obtain ⟨i, lt, hin, hge, hlt⟩ := h.inTree hall hex hcov
    obtain rfl := h.chosen_unique lt hj hle hstop hge hlt
    exact ⟨ex, hin, hcov, hphys⟩

end Children

theorem SearchTree.lookup (h : SearchTree dev rd node) (logicalBlock : UInt32) :
    ∃ r, IsPlace dev rd node logicalBlock r ∧
      ∃ depth, ∀ fuel ≥ depth, NodeAnswer dev rd fuel node logicalBlock r := by
  induction h with
  | leaf header depth bounded sorted disjoint =>
      obtain ⟨r, hscan, hres⟩ := scanExtents_spec logicalBlock 0 _
        (by simpa using header.fits)
      refine ⟨r, leaf_isPlace depth bounded disjoint hres, 0, fun fuel _ => ?_⟩
      rw [NodeAnswer, searchNode_leaf header depth, hscan]
      rfl
  | @index node child header children below ih =>
      have hall : ∀ ex, InTree dev rd ex node → extentEnd ex < 2 ^ 32 := fun _ =>
        inTree_lt (.index child header children below)
      obtain ⟨c, hscan, hres⟩ := scanIndex_spec logicalBlock 0 (entries node) none
        (by simpa using header.fits)
      rw [Nat.zero_add] at hres
      rcases hres with ⟨rfl, hstop⟩ | ⟨j, _, hj, rfl, hle, hstop⟩
      · refine ⟨none, children.none_isPlace hall hstop, 0, fun fuel _ => ?_⟩
        rw [NodeAnswer, searchNode_index header children.depth, hscan]
        rfl
      · obtain ⟨r, hplace, d, hd⟩ := ih j hj
        refine ⟨r, children.chosen_isPlace hall hj hle hstop hplace, d + 1, ?_⟩
        intro fuel hfuel
        obtain ⟨fuel, rfl⟩ := Nat.exists_eq_add_of_lt hfuel
        rw [NodeAnswer, searchNode_index header children.depth, hscan]
        exact parse_of_nodeAnswer (children.readable j hj) (hd _ (by omega))

theorem WellFormed.searchTree (h : WellFormed dev rd node lo hi) :
    hi < 2 ^ 32 → SearchTree dev rd node := by
  induction h with
  | @leaf node lo hi header depth range ordered =>
      intro hhi
      refine .leaf header depth (fun i lt => ?_) (fun i j hij hj => ?_) fun i j hij hj n hn hn' => ?_
      · have := (range i lt).2
        omega
      · have hle := ordered i j hij hj
        rw [extentEnd] at hle
        exact UInt32.le_iff_toNat_le.mpr (by omega)
      · have hle := ordered i j hij hj
        have := hn.2
        have := hn'.1
        omega
  | @index node lo hi child header depth first sorted readable below ih =>
      intro hhi
      have hstop : ∀ i < entries node, childStart node hi (i + 1) ≤ hi := by
        intro i lt
        have hmono := childStart_mono sorted (Nat.succ_le_of_lt lt) le_rfl
        rwa [childStart_entries] at hmono
      refine .index child header ⟨depth, fun i j hij hj => ?_, readable, fun i lt ex hex => ?_,
        fun i hnext ex hex => ?_⟩ fun i lt => ih i lt ((hstop i lt).trans_lt hhi)
      · have hmono := childStart_mono sorted hij.le hj.le
        rw [childStart_lt hi hj, childStart_lt hi (hij.trans hj)] at hmono
        exact UInt32.le_iff_toNat_le.mpr hmono
      · have hge := (inTree_range (below i lt) hex).1
        rwa [childStart_lt hi lt] at hge
      · have hle := (inTree_range (below i (by omega)) hex).2
        rwa [childStart_lt hi hnext] at hle

theorem lookup (h : WellFormed dev rd node lo hi) (logicalBlock : UInt32) (hhi : hi < 2 ^ 32) :
    ∃ r, IsPlace dev rd node logicalBlock r ∧
      ∃ depth, ∀ fuel ≥ depth, NodeAnswer dev rd fuel node logicalBlock r :=
  (h.searchTree hhi).lookup logicalBlock

end Lookup

end Linux2Win.ExtentTree
