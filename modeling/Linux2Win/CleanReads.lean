import Linux2Win.ImageBounds

namespace Linux2Win.CleanReads

open Bytes Devices Ext4Types Reader BlockMap FileData Directory Programs Traces FileContent ReadFile
open ExtentNodes Walks Descents DeviceRelations ReadCalls
open ImageBounds

/-- What looks at nothing outside of its buffers, and copies nothing from outside of the
window. -/
abbrev Fine (disk : Disk) (w : BlockDevice) {α : Type}
    (x : ExceptT Fault (StateM (List ReadCall)) α) : Prop :=
  Clean (CopiesInside disk w) (· ≠ Fault.outOfBounds) x

section Requests

variable {disk : Disk} {w : BlockDevice} {rd : Ext4Reader} (hwindow : 0 < w.partitionSize)
  (hwin : w.partitionOffset.toNat + w.partitionSize.toNat ≤ disk.size)

theorem fine_device {offset size : UInt64} (hsmall : size.toNat < 2 ^ 31) :
    Fine disk w (traced disk w offset size) ↔ CopiesInside disk w (offset, size) := by
  constructor
  · exact fun h => (h [] nofun).2 _ (List.mem_singleton_self _)
  · refine fun h log hlog => ⟨fun e he => ?_, List.forall_mem_append.mpr ⟨hlog, by simpa using h⟩⟩
    obtain ⟨r, hr, _⟩ := disk.read_whole w offset (hsmall.trans (by decide))
    change disk.device w offset size = .error e at he
    cases hr.symm.trans he

theorem not_escapes {e : ReadCall} (h : e.1.toNat + e.2.toNat < 2 ^ 64) : ¬Escapes disk w e :=
  fun hescapes => absurd hescapes.wraps (Nat.not_le.mpr h)

include hwindow hwin

theorem fine_request {offset size : UInt64} (hpos : 0 < size.toNat) (hsmall : size.toNat < 2 ^ 31) :
    Fine disk w (traced disk w offset size) ↔ ¬Escapes disk w (offset, size) :=
  (fine_device hsmall).trans (copiesInside_iff hwindow hwin hpos hsmall)

theorem fine_block (hacc : Accepted rd.blockSize) (block : UInt64) :
    Fine disk w (readBlock (traced disk w) block rd.blockSize) ↔
      ¬Escapes disk w (blockRead rd block) := by
  obtain ⟨hpos, hle⟩ := hacc.bounds
  refine fine_request hwindow hwin ?_ ?_ <;> rw [UInt32.toNat_toUInt64] <;> omega

theorem fine_groupDescriptor (hacc : Accepted rd.blockSize) (groupIdx : UInt32) :
    Fine disk w (readGroupDescriptor (traced disk w) rd groupIdx) := by
  have hno := descriptor_no_wrap hacc groupIdx
  have hread : ∀ size : UInt64, size = 64 ∨ size = 32 →
      Fine disk w (traced disk w (descriptorOffset rd groupIdx) size) := by
    rintro size (rfl | rfl)
    · exact (fine_request hwindow hwin (by decide) (by decide)).mpr (not_escapes hno)
    · refine (fine_request hwindow hwin (by decide) (by decide)).mpr (not_escapes ?_)
      change (descriptorOffset rd groupIdx).toNat + 32 < _
      omega
  rw [readGroupDescriptor]
  split
  · exact clean_pure _
  · refine (hread _ ?_).bind (traced_logs disk w _ _) fun _ _ => clean_pure _
    split <;> simp

theorem fine_inode (hmounted : rd.mounted = true) (inodeNum : UInt32) :
    Fine disk w (readInode (traced disk w) rd inodeNum) ↔
      ∀ gd, inodeNum ≠ 0 → inodeNum ≤ rd.sb.sInodesCount → rd.sb.sInodesPerGroup ≠ 0 →
        readGroupDescriptor (disk.device w) rd ((inodeNum - 1) / rd.sb.sInodesPerGroup) =
          pure (some gd) →
        ¬Escapes disk w
          (inodeRead rd (inodeTableBlock rd gd) ((inodeNum - 1) % rd.sb.sInodesPerGroup)) := by
  obtain ⟨hacc, hpos, hle⟩ := rd.geometry hmounted
  have hrecord : ∀ tableBlock index, Fine disk w (traced disk w (inodeRead rd tableBlock index).1
      (inodeRead rd tableBlock index).2) ↔ ¬Escapes disk w (inodeRead rd tableBlock index) := by
    intro tableBlock index
    have hbounds := hacc.bounds
    have hle' := UInt32.le_iff_toNat_le.mp hle
    refine fine_request hwindow hwin ?_ ?_
    · rw [inodeRead, UInt32.toNat_toUInt64]
      exact UInt32.lt_iff_toNat_lt.mp hpos
    · rw [inodeRead, UInt32.toNat_toUInt64]
      omega
  rw [readInode]
  by_cases hnum : inodeNum = 0 ∨ rd.sb.sInodesCount < inodeNum
  · rw [if_pos (by simpa [hmounted] using hnum)]
    refine iff_of_true (clean_pure _) fun gd hne hcount => ?_
    exact absurd hnum (not_or.mpr ⟨hne, UInt32.not_lt.mpr hcount⟩)
  · obtain ⟨hne, hcount⟩ := not_or.mp hnum
    rw [if_neg (by simpa [hmounted] using hnum)]
    by_cases hgroup : rd.sb.sInodesPerGroup = 0
    · rw [if_pos (by simp [hgroup])]
      exact iff_of_true (clean_throw (by decide)) fun _ _ _ h => absurd hgroup h
    · rw [if_neg (by simp [hgroup])]
      have hlogs := readGroupDescriptor_related logs_congruence (traced_logs disk w) rd
        ((inodeNum - 1) / rd.sb.sInodesPerGroup)
      constructor
      · intro h gd _ _ _ hgd
        have hrest := h.second hlogs (fun found => ?_) hgd
        · exact (hrecord _ _).mp (hrest.first fun _ => .pure _)
        · cases found with
          | none => exact .pure _
          | some gd => exact .bind (traced_logs disk w _ _).1 fun _ => .pure _
      · intro h
        refine (fine_groupDescriptor hwindow hwin hacc _).bind hlogs fun found hfound => ?_
        cases found with
        | none => exact clean_pure _
        | some gd =>
            refine ((hrecord _ _).mpr ?_).bind (traced_logs disk w _ _) fun _ _ => clean_pure _
            exact h gd hne (UInt32.not_lt.mp hcount) hgroup hfound

end Requests

section Lookups

variable {disk : Disk} {w : BlockDevice} {rd : Ext4Reader} {inode : Ext4Inode} {logicalBlock : UInt32}

theorem follow_grows (fuel : Nat) (node : List Byte) :
    Grows (follow (traced disk w) rd fuel logicalBlock (searchNode node logicalBlock)) := by
  rcases searchNode node logicalBlock with f | r | next
  · exact .throw f
  · exact .pure r
  · exact (parseExtentNode_related logs_congruence (traced_logs disk w) rd fuel next logicalBlock).1

theorem fine_follow (fuel : Nat) (node : List Byte) :
    Fine disk w (follow (traced disk w) rd fuel logicalBlock (searchNode node logicalBlock)) ↔
      Contained logicalBlock node ∧ ∀ next, leadsTo logicalBlock node = some next →
        Fine disk w (parseExtentNode (traced disk w) rd fuel next logicalBlock) := by
  simp only [← searchNode_contained, leadsTo_eq_some]
  cases hs : searchNode node logicalBlock with
  | error f =>
      rw [searchNode_error hs]
      exact iff_of_false (fun h => (h [] nofun).1 _ rfl rfl) fun h => h.1 rfl
  | ok found =>
      cases found with
      | done r => exact iff_of_true (clean_pure r) ⟨nofun, nofun⟩
      | child next =>
          refine ⟨fun h => ⟨nofun, ?_⟩, fun h => h.2 next rfl⟩
          rintro _ ⟨⟩
          exact h

theorem pointer_stays (hacc : Accepted rd.blockSize) (pointer : UInt32) :
    ¬Escapes disk w (blockRead rd pointer.toUInt64) := by
  refine not_escapes (Nat.lt_of_not_le fun hwraps => ?_)
  have hlast := (blockRead_wraps_iff hacc _).mp hwraps
  have hmul := blocks_mul hacc
  have hlt := pointer.toNat_lt
  have hbounds := hacc.bounds
  rw [UInt32.toNat_toUInt64] at hlast
  generalize 2 ^ 64 / rd.blockSize.toNat = count at hmul hlast
  have hcount : 2 ^ 48 ≤ count := by
    by_contra hsmall
    have hle : count * rd.blockSize.toNat ≤ (2 ^ 48 - 1) * 65536 :=
      Nat.mul_le_mul (by omega) hbounds.2
    omega
  rw [Nat.mod_eq_of_lt (by omega)] at hlast
  omega

variable (hwindow : 0 < w.partitionSize)
  (hwin : w.partitionOffset.toNat + w.partitionSize.toNat ≤ disk.size) (hacc : Accepted rd.blockSize)

include hwindow hwin hacc

theorem fine_parse_succ (fuel : Nat) (block : UInt64) :
    Fine disk w (parseExtentNode (traced disk w) rd (fuel + 1) block logicalBlock) ↔
      ¬Escapes disk w (blockRead rd block) ∧ BlockContained disk w rd logicalBlock block ∧
        ∀ next, nextNode disk w rd logicalBlock block = some next →
          Fine disk w (parseExtentNode (traced disk w) rd fuel next logicalBlock) := by
  have hlogs : Logs (readBlock (traced disk w) block rd.blockSize)
      (readBlock (disk.device w) block rd.blockSize) := traced_logs disk w _ _
  obtain ⟨r, hr, _⟩ := disk_whole disk w hacc block
  rw [← fine_block hwindow hwin hacc, BlockContained, nextNode, parseExtentNode, hr]
  constructor
  · intro h
    have hrest := h.second hlogs (fun r => ?_) hr
    · refine ⟨h.first fun r => ?_, ?_⟩
      · cases r with
        | none => exact .pure none
        | some node => exact follow_grows fuel node
      · cases r with
        | none =>
            refine ⟨fun _ h => ?_, fun _ h => ?_⟩
            · cases pure_injective h
            · cases h
        | some node =>
            obtain ⟨hcont, hnext⟩ := (fine_follow fuel node).mp hrest
            refine ⟨?_, hnext⟩
            rintro _ ⟨⟩
            exact hcont
    · cases r with
      | none => exact .pure none
      | some node => exact follow_grows fuel node
  · rintro ⟨hread, hcont, hnext⟩
    refine hread.bind hlogs fun r' hr' => ?_
    cases pure_injective (hr.symm.trans hr')
    cases r with
    | none => exact clean_pure none
    | some node => exact (fine_follow fuel node).mpr ⟨hcont node rfl, hnext⟩

theorem along_of_fine_parse {block : UInt64}
    (h : ∃ bound, ∀ fuel ≥ bound,
      Fine disk w (parseExtentNode (traced disk w) rd fuel block logicalBlock)) :
    Along (nextNode disk w rd logicalBlock) (fun b => ¬Escapes disk w (blockRead rd b) ∧
      BlockContained disk w rd logicalBlock b) (some block) := by
  have hstep : ∀ fuel b, Fine disk w (parseExtentNode (traced disk w) rd (fuel + 1) b logicalBlock) →
      ¬Escapes disk w (blockRead rd b) ∧ BlockContained disk w rd logicalBlock b ∧
        ∀ next, nextNode disk w rd logicalBlock b = some next →
          Fine disk w (parseExtentNode (traced disk w) rd fuel next logicalBlock) := fun fuel b =>
    (fine_parse_succ hwindow hwin hacc fuel b).mp
  have hnext : ∀ b c, (∃ bound, ∀ fuel ≥ bound,
      Fine disk w (parseExtentNode (traced disk w) rd fuel b logicalBlock)) →
      nextNode disk w rd logicalBlock b = some c → ∃ bound, ∀ fuel ≥ bound,
        Fine disk w (parseExtentNode (traced disk w) rd fuel c logicalBlock) := by
    rintro b c ⟨bound, hb⟩ hc
    exact ⟨bound, fun fuel hfuel => (hstep fuel b (hb _ (by omega))).2.2 c hc⟩
  intro n b hwalk
  obtain ⟨bound, hb⟩ := along_of_invariant hnext h n b hwalk
  obtain ⟨hstays, hcont, _⟩ := hstep bound b (hb _ (by omega))
  exact ⟨hstays, hcont⟩

theorem fine_parse_of_along (fuel : Nat) {block : UInt64}
    (h : Along (nextNode disk w rd logicalBlock) (fun b => ¬Escapes disk w (blockRead rd b) ∧
      BlockContained disk w rd logicalBlock b) (some block)) :
    Fine disk w (parseExtentNode (traced disk w) rd fuel block logicalBlock) := by
  induction fuel generalizing block with
  | zero => exact clean_throw (by decide)
  | succ fuel ih =>
      obtain ⟨⟨hstays, hcont⟩, hbelow⟩ := along_some.mp h
      refine (fine_parse_succ hwindow hwin hacc fuel block).mpr ⟨hstays, hcont, fun next hnext => ih ?_⟩
      rwa [hnext] at hbelow

theorem fine_pointer (block i : UInt32) : Fine disk w (readPointer (traced disk w) rd block i) := by
  rw [readPointer]
  split
  · exact clean_pure none
  · refine Clean.bind (traced_logs disk w _ _) ?_ fun _ _ => clean_pure _
    exact (fine_block hwindow hwin hacc _).mpr (pointer_stays hacc block)

theorem fine_indirect : Fine disk w (readIndirectBlock (traced disk w) rd inode logicalBlock) := by
  have hpointer : ∀ block i, Fine disk w (readPointer (traced disk w) rd block i) :=
    fine_pointer hwindow hwin hacc
  have hlogs := readPointer_related logs_congruence (traced_logs disk w) rd
  rw [readIndirectBlock]
  split
  · exact clean_pure _
  · dsimp only
    split
    · exact (hpointer _ _).bind (hlogs _ _) fun _ _ => clean_pure _
    · split
      · refine (hpointer _ _).bind (hlogs _ _) fun indBlock _ => ?_
        split
        · exact clean_pure none
        · exact (hpointer _ _).bind (hlogs _ _) fun _ _ => clean_pure _
      · exact clean_pure none

omit hwindow hwin hacc in
theorem mapBlock_follow (huses : usesExtents inode = true) (fuel : Nat) :
    mapBlock (traced disk w) rd fuel inode logicalBlock =
      follow (traced disk w) rd fuel logicalBlock (searchNode inode.iBlock logicalBlock) := by
  rw [mapBlock, huses, if_pos rfl]
  rfl

theorem nodes_of_fine (huses : usesExtents inode = true) (h : ∃ bound, ∀ fuel ≥ bound,
      Fine disk w (mapBlock (traced disk w) rd fuel inode logicalBlock)) :
    PathContained disk w rd logicalBlock inode ∧
      ∀ block, OnPath disk w rd inode logicalBlock block → ¬Escapes disk w (blockRead rd block) := by
  obtain ⟨bound, h⟩ := h
  simp only [mapBlock_follow huses, fine_follow] at h
  have hbelow : Along (nextNode disk w rd logicalBlock) (fun b => ¬Escapes disk w (blockRead rd b) ∧
      BlockContained disk w rd logicalBlock b) (leadsTo logicalBlock inode.iBlock) := by
    cases hlead : leadsTo logicalBlock inode.iBlock with
    | none => exact along_none
    | some next =>
        exact along_of_fine_parse hwindow hwin hacc ⟨bound, fun fuel hfuel => (h fuel hfuel).2 next hlead⟩
  exact ⟨⟨(h bound le_rfl).1, fun n b hwalk => (hbelow n b hwalk).2⟩,
    fun block ⟨n, hwalk⟩ => (hbelow n block hwalk).1⟩

theorem fine_mapBlock (h : LookupStays disk w rd inode logicalBlock) (fuel : Nat) :
    Fine disk w (mapBlock (traced disk w) rd fuel inode logicalBlock) := by
  cases huses : usesExtents inode with
  | false =>
      rw [mapBlock, huses, if_neg Bool.false_ne_true]
      exact fine_indirect hwindow hwin hacc
  | true =>
      obtain ⟨hroot, hbelow⟩ := h.contained huses
      rw [mapBlock_follow huses, fine_follow]
      refine ⟨hroot, fun next hlead => fine_parse_of_along hwindow hwin hacc fuel fun n b hwalk => ?_⟩
      rw [← hlead] at hwalk
      exact ⟨h.nodes huses b ⟨n, hwalk⟩, hbelow n b hwalk⟩

theorem fine_blockBytes {mapped : Option UInt64} (blockOffset toCopy : UInt32) :
    Fine disk w (blockBytes (traced disk w) rd mapped blockOffset toCopy) ↔
      ∀ physBlock, mapped = some physBlock → physBlock ≠ 0 →
        ¬Escapes disk w (blockRead rd physBlock) := by
  cases mapped with
  | none => exact iff_of_true (clean_pure _) nofun
  | some physBlock =>
      rw [blockBytes]
      by_cases hp : physBlock = 0
      · rw [if_neg (by simp [hp])]
        refine iff_of_true (clean_pure _) ?_
        rintro _ ⟨⟩ hne
        exact absurd hp hne
      · rw [if_pos (bne_iff_ne.mpr hp)]
        constructor
        · rintro h _ ⟨⟩ _
          exact (fine_block hwindow hwin hacc _).mp (h.first fun _ => .pure _)
        · intro h
          exact ((fine_block hwindow hwin hacc _).mpr (h physBlock rfl hp)).bind
            (traced_logs disk w _ _) fun _ _ => clean_pure _

end Lookups

section Loops

variable {disk : Disk} {w : BlockDevice} {rd : Ext4Reader} {inode : Ext4Inode}
  (hwindow : 0 < w.partitionSize)
  (hwin : w.partitionOffset.toNat + w.partitionSize.toNat ≤ disk.size) (hacc : Accepted rd.blockSize)

include hwindow hwin hacc

omit hwindow hwin hacc in
theorem copyLoop_more {m : Type → Type} [Monad m] {dev : Device m} {depth fuel : Nat}
    {offset remaining : UInt64} {written : List Byte} (more : remaining ≠ 0) :
    copyLoop dev rd inode depth (fuel + 1) offset remaining written = (do
      let mapped ← mapBlock dev rd depth inode (blockAt rd offset)
      let bytes ← blockBytes dev rd mapped (offset % rd.blockSize.toUInt64).toUInt32
        (min remaining.toUInt32 (rd.blockSize - (offset % rd.blockSize.toUInt64).toUInt32))
      bytes.elim (pure (false, written)) fun bytes =>
        copyLoop dev rd inode depth fuel (offset + chunkSize rd offset remaining)
          (remaining - chunkSize rd offset remaining) (written ++ bytes)) := by
  rw [copyLoop, if_neg (by simpa using more)]
  refine bind_congr fun mapped => bind_congr fun bytes => ?_
  cases bytes <;> rfl

theorem fine_copyLoop_succ (depth fuel : Nat) {offset remaining : UInt64} (written : List Byte)
    (more : remaining ≠ 0) :
    Fine disk w (copyLoop (traced disk w) rd inode depth (fuel + 1) offset remaining written) ↔
      Fine disk w (mapBlock (traced disk w) rd depth inode (blockAt rd offset)) ∧
        ∀ mapped, mapBlock (disk.device w) rd depth inode (blockAt rd offset) = pure mapped →
          (∀ physBlock, mapped = some physBlock → physBlock ≠ 0 →
            ¬Escapes disk w (blockRead rd physBlock)) ∧
          ∀ b, blockContent (disk.device w) rd mapped = some b →
            Fine disk w (copyLoop (traced disk w) rd inode depth fuel
              (offset + chunkSize rd offset remaining) (remaining - chunkSize rd offset remaining)
              (written ++ chunk rd offset remaining b)) := by
  have hmap := mapBlock_related logs_congruence (traced_logs disk w) rd depth inode (blockAt rd offset)
  have hloop := fun offset remaining written =>
    copyLoop_related logs_congruence (traced_logs disk w) rd inode depth fuel offset remaining written
  have hbytes := fun mapped blockOffset toCopy =>
    blockBytes_related logs_congruence (traced_logs disk w) rd mapped blockOffset toCopy
  have hcontent : ∀ mapped, blockBytes (disk.device w) rd mapped
      (offset % rd.blockSize.toUInt64).toUInt32
      (min remaining.toUInt32 (rd.blockSize - (offset % rd.blockSize.toUInt64).toUInt32)) =
        pure ((blockContent (disk.device w) rd mapped).map (chunk rd offset remaining)) := by
    intro mapped
    have hpos := hacc.bounds.1
    have hlt := Nat.mod_lt offset.toNat hpos
    rw [blockBytes_eq (disk_whole disk w hacc), blockOffset_toNat offset hpos,
      toCopy_toNat offset remaining hpos]
    · rfl
    · rw [blockOffset_toNat offset hpos, toCopy_toNat offset remaining hpos]
      omega
  rw [copyLoop_more more]
  constructor
  · intro h
    have hturn : ∀ bytes : Option (List Byte), Grows (bytes.elim (pure (false, written)) fun bytes =>
        copyLoop (traced disk w) rd inode depth fuel (offset + chunkSize rd offset remaining)
          (remaining - chunkSize rd offset remaining) (written ++ bytes)) := by
      intro bytes
      cases bytes with
      | none => exact .pure _
      | some bytes => exact (hloop _ _ _).1
    refine ⟨h.first fun mapped => .bind (hbytes _ _ _).1 hturn, fun mapped hmapped => ?_⟩
    have hrest := h.second hmap (fun mapped => .bind (hbytes _ _ _).1 hturn) hmapped
    refine ⟨(fine_blockBytes hwindow hwin hacc _ _).mp (hrest.first hturn), fun b hb => ?_⟩
    have hread := hcontent mapped
    rw [hb] at hread
    exact hrest.second (hbytes _ _ _) hturn hread
  · rintro ⟨hfine, hrest⟩
    refine hfine.bind hmap fun mapped hmapped => ?_
    obtain ⟨hdata, hnext⟩ := hrest mapped hmapped
    refine ((fine_blockBytes hwindow hwin hacc _ _).mpr hdata).bind (hbytes _ _ _) fun bytes hread => ?_
    have hpiece := pure_injective ((hcontent mapped).symm.trans hread)
    cases bytes with
    | none => exact clean_pure _
    | some bytes =>
        obtain ⟨b, hb, rfl⟩ := Option.map_eq_some_iff.mp hpiece
        exact hnext b hb

omit hwindow hwin in
theorem blockContent_some {r : Option UInt64} :
    (∃ b, blockContent (disk.device w) rd r = some b) ↔
      ∀ physBlock, r = some physBlock → physBlock ≠ 0 →
        readBlock (disk.device w) physBlock rd.blockSize ≠ pure none := by
  rw [← Option.ne_none_iff_exists', ne_eq, blockContent_eq_none (disk_whole disk w hacc)]
  simp only [not_exists, not_and]

theorem fine_copyLoop (h : ∀ offset remaining, Comes disk w rd inode offset remaining →
      remaining ≠ 0 → LookupStays disk w rd inode (blockAt rd offset))
    (depth fuel : Nat) {offset remaining : UInt64} (hcomes : Comes disk w rd inode offset remaining)
    (written : List Byte) :
    Fine disk w (copyLoop (traced disk w) rd inode depth fuel offset remaining written) := by
  induction fuel generalizing offset remaining written with
  | zero => exact clean_throw (by decide)
  | succ fuel ih =>
      by_cases more : remaining = 0
      · rw [copyLoop, if_pos (by simpa using more)]
        exact clean_pure _
      · have hstays := h offset remaining hcomes more
        refine (fine_copyLoop_succ hwindow hwin hacc depth fuel written more).mpr
          ⟨fine_mapBlock hwindow hwin hacc hstays depth, fun mapped hmapped => ?_⟩
        have hmaps : MapsTo disk w rd inode (blockAt rd offset) mapped := mapsTo_iff.mpr ⟨depth, hmapped⟩
        refine ⟨fun physBlock hp => hstays.data physBlock (hp ▸ hmaps), fun b hb => ih ?_ _⟩
        exact .next hcomes more hmaps ((blockContent_some hacc).mp ⟨b, hb⟩)

theorem fine_of_comes (h : ∀ offset size, offset < fileSize inode → size ≠ 0 → ∀ fuel,
      Fine disk w (copyLoop (traced disk w) rd inode fuel fuel offset (clippedSize inode offset size) []))
    {offset remaining : UInt64} (hcomes : Comes disk w rd inode offset remaining) :
    ∃ turns written, ∃ bound ≥ turns, ∀ fuel ≥ bound,
      Fine disk w (copyLoop (traced disk w) rd inode fuel (fuel - turns) offset remaining written) := by
  induction hcomes with
  | @first offset size inside asks => exact ⟨0, [], 0, le_rfl, fun fuel _ => h offset size inside asks fuel⟩
  | @next offset remaining r _ more maps reads ih =>
      obtain ⟨turns, written, bound, hle, hfine⟩ := ih
      obtain ⟨depth, hdepth⟩ := mapsTo_iff.mp maps
      obtain ⟨b, hb⟩ := (blockContent_some hacc).mpr reads
      refine ⟨turns + 1, written ++ chunk rd offset remaining b, max depth (bound + 1), by omega,
        fun fuel hfuel => ?_⟩
      have hsucc : fuel - turns = fuel - (turns + 1) + 1 := by omega
      have hturn := hfine fuel (by omega)
      rw [hsucc, fine_copyLoop_succ hwindow hwin hacc _ _ _ more] at hturn
      exact (hturn.2 r (mapBlock_mono (by omega) hdepth)).2 b hb

theorem stays_of_fine (h : ∀ offset size, offset < fileSize inode → size ≠ 0 → ∀ fuel,
      Fine disk w (copyLoop (traced disk w) rd inode fuel fuel offset (clippedSize inode offset size) []))
    {offset remaining : UInt64} (hcomes : Comes disk w rd inode offset remaining)
    (more : remaining ≠ 0) : LookupStays disk w rd inode (blockAt rd offset) := by
  obtain ⟨turns, written, bound, hle, hfine⟩ := fine_of_comes hwindow hwin hacc h hcomes
  have hturn : ∀ fuel ≥ bound + 1, ∃ rest, fuel - turns = rest + 1 := fun fuel hfuel =>
    ⟨fuel - turns - 1, by omega⟩
  have hlookup : ∃ bound, ∀ fuel ≥ bound,
      Fine disk w (mapBlock (traced disk w) rd fuel inode (blockAt rd offset)) := by
    refine ⟨bound + 1, fun fuel hfuel => ?_⟩
    obtain ⟨rest, hrest⟩ := hturn fuel hfuel
    have hfirst := hfine fuel (by omega)
    rw [hrest, fine_copyLoop_succ hwindow hwin hacc _ _ _ more] at hfirst
    exact hfirst.1
  refine ⟨fun huses => (nodes_of_fine hwindow hwin hacc huses hlookup).1,
    fun huses => (nodes_of_fine hwindow hwin hacc huses hlookup).2, fun physBlock hmaps hne => ?_⟩
  obtain ⟨depth, hdepth⟩ := mapsTo_iff.mp hmaps
  obtain ⟨rest, hrest⟩ := hturn (max depth (bound + 1)) (by omega)
  have hfirst := hfine (max depth (bound + 1)) (by omega)
  rw [hrest, fine_copyLoop_succ hwindow hwin hacc _ _ _ more] at hfirst
  exact (hfirst.2 _ (mapBlock_mono (by omega) hdepth)).1 physBlock rfl hne

end Loops

end Linux2Win.CleanReads
