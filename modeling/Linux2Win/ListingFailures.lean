import Linux2Win.DeviceRelations
import Linux2Win.DirBounds
import Linux2Win.ReadErrors

namespace Linux2Win.ListingFailures

open Bytes Devices Ext4Types Reader BlockMap FileData FileContent Directory Programs Traces
open DeviceRelations DirBounds ReadErrors

/-- The requests that a device has got so far, and how many of them have failed. -/
structure Requests where
  made : Nat
  failed : Nat
  deriving DecidableEq, Repr

def quiet (disk : Disk) : Disk := { disk with fails := fun _ _ => false }

/-- A device whose content stays while the requests to it are counted, and fail as the
pattern has it. -/
def flaky (disk : Disk) (w : BlockDevice) (fails : Nat → UInt64 → UInt32 → Bool) :
    Device (StateM Requests) := fun offset size =>
  read (fun position count => modifyGet fun s =>
    if fails s.made position count then (none, ⟨s.made + 1, s.failed + 1⟩)
    else ((quiet disk).readFile position count, ⟨s.made + 1, s.failed⟩)) w offset size

def Fails {α : Type} (x : ExceptT Fault (StateM Requests) α) (s : Requests) : Prop :=
  Disturbed Requests.failed x s

section Agreement

variable {disk : Disk} {w : BlockDevice} {fails : Nat → UInt64 → UInt32 → Bool} {rd : Ext4Reader}
  {s s' : Requests}

theorem modifyGet_run {σ α : Type} (f : σ → α × σ) (s : σ) :
    StateT.run (modifyGet f : StateM σ α) s = f s := rfl

theorem flaky_exec (offset size : UInt64) : exec (flaky disk w fails offset size) s =
    match request w offset size with
    | none => (.ok none, s)
    | some r =>
      if fails s.made r.alignedStart r.alignedSize.toUInt32 then
        (.ok none, ⟨s.made + 1, s.failed + 1⟩)
      else (((quiet disk).device w offset size).run, ⟨s.made + 1, s.failed⟩) := by
  rw [flaky, Disk.device, Devices.read, Devices.read]
  cases request w offset size with
  | none => rfl
  | some r =>
      dsimp only
      rw [exec_lift_bind, modifyGet_run]
      cases fails s.made r.alignedStart r.alignedSize.toUInt32 with
      | true => rfl
      | false =>
          rw [if_neg Bool.false_ne_true, if_neg Bool.false_ne_true]
          cases (quiet disk).readFile r.alignedStart r.alignedSize.toUInt32 with
          | none => rfl
          | some alignedBuffer => rfl

variable (disk w fails) in
theorem flaky_agrees (offset size : UInt64) :
    Agrees Requests.failed (flaky disk w fails offset size) ((quiet disk).device w offset size) := by
  intro s
  rw [flaky_exec]
  cases hr : request w offset size with
  | none =>
      refine ⟨Nat.le_refl _, fun _ => ?_⟩
      rw [Disk.device, Devices.read, hr]
      rfl
  | some r =>
      dsimp only
      split
      · exact ⟨Nat.le_succ _, fun hcount => absurd hcount (Nat.succ_ne_self _)⟩
      · exact ⟨Nat.le_refl _, fun _ => rfl⟩

theorem flaky_noticed (offset size : UInt64) :
    Noticed Requests.failed (flaky disk w fails offset size) := by
  intro s a s' hexec
  rw [flaky_exec] at hexec
  cases hr : request w offset size with
  | none =>
      rw [hr] at hexec
      cases hexec
  | some r =>
      rw [hr] at hexec
      dsimp only at hexec
      split at hexec
      · cases hexec
      · rw [← (Prod.mk.inj hexec).2]

theorem flaky_fails {offset size : UInt64} (h : Fails (flaky disk w fails offset size) s) :
    (exec (flaky disk w fails offset size) s).1 = .ok none := by
  rw [Fails, Disturbed] at h
  rw [flaky_exec] at h ⊢
  cases hr : request w offset size with
  | none => rfl
  | some r =>
      rw [hr] at h
      dsimp only at h ⊢
      split
      · rfl
      · rename_i hanswers
        rw [if_neg hanswers] at h
        exact absurd rfl h

theorem readGroupDescriptor_noticed (groupIdx : UInt32) :
    Noticed Requests.failed (readGroupDescriptor (flaky disk w fails) rd groupIdx) := by
  rw [readGroupDescriptor]
  split
  · exact noticed_pure _
  · exact .bind (flaky_noticed _ _) rfl fun _ => noticed_pure _

theorem readInode_noticed (inodeNum : UInt32) :
    Noticed Requests.failed (readInode (flaky disk w fails) rd inodeNum) := by
  rw [readInode]
  split
  · exact noticed_pure _
  · split
    · rw [throw_bind]
      exact noticed_throw _
    · refine .bind (readGroupDescriptor_noticed _) rfl fun gd => ?_
      exact .bind (flaky_noticed _ _) rfl fun _ => noticed_pure _

theorem parseExtentNode_noticed (fuel : Nat) (block : UInt64) (logicalBlock : UInt32) :
    Noticed Requests.failed (parseExtentNode (flaky disk w fails) rd fuel block logicalBlock) := by
  induction fuel generalizing block with
  | zero => exact noticed_throw _
  | succ fuel ih =>
      rw [parseExtentNode]
      refine .bind (flaky_noticed _ _) rfl fun node => ?_
      dsimp only
      split
      · exact noticed_throw _
      · exact noticed_pure _
      · exact ih _

theorem readPointer_noticed (block i : UInt32) :
    Noticed Requests.failed (readPointer (flaky disk w fails) rd block i) := by
  rw [readPointer]
  split
  · exact noticed_pure _
  · exact .bind (flaky_noticed _ _) rfl fun _ => noticed_pure _

theorem mapBlock_noticed (fuel : Nat) (inode : Ext4Inode) (logicalBlock : UInt32) :
    Noticed Requests.failed (mapBlock (flaky disk w fails) rd fuel inode logicalBlock) := by
  rw [mapBlock]
  split
  · rw [resolveExtentBlock]
    split
    · exact noticed_throw _
    · exact noticed_pure _
    · exact parseExtentNode_noticed fuel _ _
  · rw [readIndirectBlock]
    split
    · exact noticed_pure _
    · dsimp only
      split
      · exact .bind (readPointer_noticed _ _) rfl fun _ => noticed_pure _
      · split
        · refine .bind (readPointer_noticed _ _) rfl fun indBlock => ?_
          exact .bind (readPointer_noticed _ _) rfl fun _ => noticed_pure _
        · exact noticed_pure _

end Agreement

section Conditions

variable (disk : Disk) (w : BlockDevice) (rd : Ext4Reader) (fuel : Nat)

/-- The live entries of a directory: what is listed when no request fails. -/
def Live (d : UInt32) (entries : List DirEntryInfo) : Prop :=
  listDirectory ((quiet disk).device w) rd fuel d = pure (some entries)

/-- The logical block has no bytes of its own, and is read as zeros. -/
def Hole (inode : Ext4Inode) (logicalBlock : UInt32) : Prop :=
  mapBlock ((quiet disk).device w) rd fuel inode logicalBlock = pure none ∨
    mapBlock ((quiet disk).device w) rd fuel inode logicalBlock = pure (some 0)

variable (fails : Nat → UInt64 → UInt32 → Bool)

/-- The listing of the directory that starts in state `s` comes to a block of its data, in
state `t`. The inode of the directory is read twice before. -/
inductive ComesTo (d : UInt32) (s : Requests) (dir : Ext4Inode) (logicalBlock : UInt32) (t : Requests) : Prop
  | intro {first : Ext4Inode} {s₁ s₂ : Requests}
      (reads : exec (readInode (flaky disk w fails) rd d) s = (.ok (some first), s₁))
      (again : exec (readInode (flaky disk w fails) rd d) s₁ = (.ok (some dir), s₂))
      (comes : Comes (flaky disk w fails) rd dir fuel 0 (ReadFile.clippedSize dir 0 first.iSizeLo.toUInt64)
        s₂ logicalBlock t)

/-- A request fails, and `list_directory` does not hide it: one for the inode of the
directory or for a block of its data. -/
inductive ListingCut (d : UInt32) (s : Requests) : Prop
  | inode (h : Fails (readInode (flaky disk w fails) rd d) s)
  | again {dir : Ext4Inode} {t : Requests}
      (reads : exec (readInode (flaky disk w fails) rd d) s = (.ok (some dir), t))
      (size : dir.iSizeLo.toUInt64 ≠ 0) (h : Fails (readInode (flaky disk w fails) rd d) t)
  | data {dir : Ext4Inode} {logicalBlock : UInt32} {t u : Requests} {physBlock : UInt64}
      (comes : ComesTo disk w rd fuel fails d s dir logicalBlock t)
      (maps : exec (mapBlock (flaky disk w fails) rd fuel dir logicalBlock) t = (.ok (some physBlock), u))
      (present : physBlock ≠ 0) (h : Fails (readBlock (flaky disk w fails) physBlock rd.blockSize) u)

/-- No request fails for the mapping of a block of the directory, holes apart. -/
def MappingReads (d : UInt32) (s : Requests) : Prop :=
  ∀ dir logicalBlock t, ComesTo disk w rd fuel fails d s dir logicalBlock t →
    ¬Fails (mapBlock (flaky disk w fails) rd fuel dir logicalBlock) t ∨ Hole disk w rd fuel dir logicalBlock

/-- No request fails for the inode of an entry, and each entry has an inode. -/
def InodesRead : List DirEntryInfo → Requests → Prop
  | [], _ => True
  | e :: entries, s => (∃ inode, readInode ((quiet disk).device w) rd e.inode = pure (some inode)) ∧
      ¬Fails (readInode (flaky disk w fails) rd e.inode) s ∧
        ∀ st s', exec (statInode (flaky disk w fails) rd fuel e.inode) s = (.ok st, s') →
          InodesRead entries s'

/-- The directory can be loaded from state `s` on: its listing is cut, or else no request
fails for the mapping of its blocks, nor behind the listing for the inodes of its entries. -/
def LoadClear (d : UInt32) (s : Requests) : Prop :=
  ∀ all, Live disk w rd fuel d all → ListingCut disk w rd fuel fails d s ∨
    MappingReads disk w rd fuel fails d s ∧
      ∀ list s', exec (listDirectory (flaky disk w fails) rd fuel d) s = (.ok list, s') →
        InodesRead disk w rd fuel fails all s'

end Conditions

def SameEntry (e e' : DirEntryInfo) : Prop := e.name = e'.name ∧ e.inode = e'.inode

section Loop

variable {disk : Disk} {w : BlockDevice} {rd : Ext4Reader} {fuel depth : Nat}
  {fails : Nat → UInt64 → UInt32 → Bool} {inode : Ext4Inode} {s s' t : Requests}

theorem agrees_of_reads {α : Type} {x : ExceptT Fault (StateM Requests) α} {y : ExceptT Fault Id α}
    (h : Agrees Requests.failed x y) (hreads : ¬Fails x s) {a : α} (hexec : exec x s = (.ok a, s')) :
    y = pure a := by
  rw [Fails, Disturbed, hexec, not_not] at hreads
  exact h.ok hexec hreads

theorem blockBytes_zero {m : Type → Type} [Monad m] (dev : Device m) {mapped : Option UInt64}
    (h : mapped = none ∨ mapped = some 0) (blockOffset toCopy : UInt32) :
    blockBytes dev rd mapped blockOffset toCopy = pure (some (List.replicate toCopy.toNat 0)) := by
  rcases h with rfl | rfl <;> rfl

theorem blockBytes_reads {mapped : Option UInt64} {blockOffset toCopy : UInt32}
    (h : ∀ physBlock, mapped = some physBlock → physBlock ≠ 0 →
      ¬Fails (readBlock (flaky disk w fails) physBlock rd.blockSize) t) :
    ¬Fails (blockBytes (flaky disk w fails) rd mapped blockOffset toCopy) t := by
  cases mapped with
  | none => exact fun hfails => hfails rfl
  | some physBlock =>
      rw [blockBytes]
      split
      · rename_i hp
        have hreads := h physBlock rfl (bne_iff_ne.mp hp)
        rw [Fails, Disturbed] at hreads ⊢
        rw [exec_bind]
        generalize exec (readBlock (flaky disk w fails) physBlock rd.blockSize) t = read at hreads ⊢
        obtain ⟨_ | _, t'⟩ := read <;> exact hreads
      · exact fun hfails => hfails rfl

/-- Where no request for the data fails, and none for the mapping of a block that has
bytes, the loop stores what it stores without any failure. -/
theorem copyLoop_clear {offset remaining : UInt64} {written out out' : List Byte} {ok : Bool}
    (hexec : exec (copyLoop (flaky disk w fails) rd inode depth fuel offset remaining written) s =
      (.ok (ok, out), s'))
    (hquiet : copyLoop ((quiet disk).device w) rd inode depth fuel offset remaining written =
      pure (true, out'))
    (hmaps : ∀ logicalBlock t, Comes (flaky disk w fails) rd inode depth offset remaining s logicalBlock t →
      ¬Fails (mapBlock (flaky disk w fails) rd depth inode logicalBlock) t ∨
        Hole disk w rd depth inode logicalBlock)
    (hdata : ∀ logicalBlock t, Comes (flaky disk w fails) rd inode depth offset remaining s logicalBlock t →
      ∀ physBlock u, exec (mapBlock (flaky disk w fails) rd depth inode logicalBlock) t =
          (.ok (some physBlock), u) → physBlock ≠ 0 →
        ¬Fails (readBlock (flaky disk w fails) physBlock rd.blockSize) u) :
    ok = true ∧ out = out' := by
  induction fuel generalizing offset remaining written s with
  | zero => cases hexec
  | succ fuel ih =>
      by_cases more : remaining = 0
      · subst more
        cases hexec
        exact ⟨rfl, (Prod.mk.inj (pure_injective hquiet)).2⟩
      · obtain ⟨mapped, t, r, u, hmap, hbytes, hrest⟩ := copyLoop_step more hexec
        rw [copyLoop, if_neg (by simpa using more)] at hquiet
        obtain ⟨mapped', hmap', hquiet⟩ := bind_eq_pure.mp hquiet
        obtain ⟨r', hbytes', hquiet⟩ := bind_eq_pure.mp hquiet
        have hagrees : Agrees Requests.failed (mapBlock (flaky disk w fails) rd depth inode
            (iteration rd offset remaining).1) (mapBlock ((quiet disk).device w) rd depth inode
              (iteration rd offset remaining).1) :=
          mapBlock_related agrees_congruence (flaky_agrees disk w fails) rd depth inode _
        -- the bytes of the block are those that are copied without any failure
        have hsame : r = r' := by
          rcases hmaps _ s (.here s more) with hreads | hhole
          · obtain rfl := pure_injective ((agrees_of_reads hagrees hreads hmap).symm.trans hmap')
            have hreads : ∀ physBlock, mapped = some physBlock → physBlock ≠ 0 →
                ¬Fails (readBlock (flaky disk w fails) physBlock rd.blockSize) t := by
              rintro physBlock rfl hne
              exact hdata _ s (.here s more) physBlock t hmap hne
            have hagrees := blockBytes_related agrees_congruence (flaky_agrees disk w fails) rd mapped
              (iteration rd offset remaining).2.1 (iteration rd offset remaining).2.2
            exact pure_injective
              ((agrees_of_reads hagrees (blockBytes_reads hreads) hbytes).symm.trans hbytes')
          · have hzero' : mapped' = none ∨ mapped' = some 0 :=
              hhole.imp (fun h => pure_injective (hmap'.symm.trans h))
                fun h => pure_injective (hmap'.symm.trans h)
            have hzero : mapped = none ∨ mapped = some 0 := by
              by_cases hfails : Fails (mapBlock (flaky disk w fails) rd depth inode
                (iteration rd offset remaining).1) s
              · exact Or.inl ((mapBlock_noticed depth inode _).none hmap hfails)
              · obtain rfl := pure_injective ((agrees_of_reads hagrees hfails hmap).symm.trans hmap')
                exact hzero'
            rw [blockBytes_zero _ hzero] at hbytes
            rw [blockBytes_zero _ hzero'] at hbytes'
            cases hbytes
            exact pure_injective hbytes'
        subst hsame
        cases r with
        | none => exact absurd (Prod.mk.inj (pure_injective hquiet)).1 Bool.false_ne_true
        | some bytes =>
            exact ih hrest hquiet (fun l v h => hmaps l v (.next more hmap hbytes h))
              fun l v h => hdata l v (.next more hmap hbytes h)

end Loop

section Listing

variable {disk : Disk} {w : BlockDevice} {rd : Ext4Reader} {fuel : Nat}
  {fails : Nat → UInt64 → UInt32 → Bool} {d : UInt32} {s s' : Requests}

theorem dirEntry_exec {σ : Type} {dev : Device (StateM σ)} {inode : UInt32} {name : Name} {fileType : Byte}
    {e : DirEntryInfo} {s s' : σ} (hexec : exec (dirEntry dev rd inode name fileType) s = (.ok e, s')) :
    e.name = name ∧ e.inode = inode := by
  rw [dirEntry] at hexec
  dsimp only at hexec
  split at hexec
  · obtain ⟨child, t, _, hexec⟩ := exec_bind_ok.mp hexec
    cases child <;> cases hexec <;> exact ⟨rfl, rfl⟩
  · cases hexec
    exact ⟨rfl, rfl⟩

theorem dirEntry_pure {dev : Device Id} {inode : UInt32} {name : Name} {fileType : Byte}
    {e : DirEntryInfo} (h : dirEntry dev rd inode name fileType = pure e) :
    e.name = name ∧ e.inode = inode := by
  rw [dirEntry] at h
  dsimp only at h
  split at h
  · obtain ⟨child, _, h⟩ := bind_eq_pure.mp h
    cases child <;> cases pure_injective h <;> exact ⟨rfl, rfl⟩
  · cases pure_injective h
    exact ⟨rfl, rfl⟩

theorem recordEntry_same {content : List Byte} {offset : Nat} {found found' : Option DirEntryInfo}
    (hexec : exec (recordEntry (flaky disk w fails) rd content offset) s = (.ok found, s'))
    (hquiet : recordEntry ((quiet disk).device w) rd content offset = pure found') :
    List.Forall₂ SameEntry found.toList found'.toList := by
  rw [recordEntry_eq] at hexec hquiet
  split at hexec
  · rename_i huse
    rw [if_pos huse] at hquiet
    cases hexec
    cases pure_injective hquiet
    exact .nil
  · rename_i huse
    rw [if_neg huse] at hquiet
    split at hexec
    · cases hexec
    · rename_i hout
      rw [if_neg hout] at hquiet
      split at hexec
      · rename_i hdots
        rw [if_pos hdots] at hquiet
        cases hexec
        cases pure_injective hquiet
        exact .nil
      · rename_i hdots
        rw [if_neg hdots, map_eq_pure_bind] at hquiet
        rw [map_eq_pure_bind] at hexec
        obtain ⟨e, t, he, hexec⟩ := exec_bind_ok.mp hexec
        obtain ⟨e', he', hquiet⟩ := bind_eq_pure.mp hquiet
        cases hexec
        cases pure_injective hquiet
        obtain ⟨hname, hinode⟩ := dirEntry_exec he
        obtain ⟨hname', hinode'⟩ := dirEntry_pure he'
        exact .cons ⟨hname.trans hname'.symm, hinode.trans hinode'.symm⟩ .nil

theorem scanDirectory_same {content : List Byte} {bytesRead turns offset : Nat}
    {entries entries' all all' : List DirEntryInfo}
    (hexec : exec (scanDirectory (flaky disk w fails) rd content bytesRead turns offset entries) s =
      (.ok all, s'))
    (hquiet : scanDirectory ((quiet disk).device w) rd content bytesRead turns offset entries' = pure all')
    (h : List.Forall₂ SameEntry entries entries') : List.Forall₂ SameEntry all all' := by
  induction turns generalizing offset entries entries' s with
  | zero => cases hexec
  | succ turns ih =>
      rw [scanDirectory] at hexec hquiet
      split at hexec
      · rename_i hend
        rw [if_pos hend] at hquiet
        cases hexec
        cases pure_injective hquiet
        exact h
      · rename_i hmore
        rw [if_neg hmore] at hquiet
        dsimp only at hexec hquiet
        split at hexec
        · rename_i hend
          rw [if_pos hend] at hquiet
          cases hexec
          cases pure_injective hquiet
          exact h
        · rename_i hrec
          rw [if_neg hrec] at hquiet
          obtain ⟨found, t, hfound, hexec⟩ := exec_bind_ok.mp hexec
          obtain ⟨found', hfound', hquiet⟩ := bind_eq_pure.mp hquiet
          exact ih hexec hquiet (List.rel_append h (recordEntry_same hfound hfound'))

theorem inode_of_reads {dir : Ext4Inode} {t : Requests}
    (hexec : exec (readInode (flaky disk w fails) rd d) s = (.ok (some dir), t)) :
    readInode ((quiet disk).device w) rd d = pure (some dir) :=
  (readInode_related agrees_congruence (flaky_agrees disk w fails) rd d).ok hexec
    (readInode_noticed d s dir t hexec)

structure Listed (disk : Disk) (w : BlockDevice) (rd : Ext4Reader) (fuel : Nat) (d : UInt32)
    (dir : Ext4Inode) (all : List DirEntryInfo) : Prop where
  mounted : rd.mounted = true
  reads : readInode ((quiet disk).device w) rd d = pure (some dir)
  isDir : dir.iMode &&& sIfmt = sIfdir
  empty : dir.iSizeLo.toUInt64 = 0 → all = []
  content : dir.iSizeLo.toUInt64 ≠ 0 → ∃ r : ReadResult, r.ok = true ∧
    readFileData ((quiet disk).device w) rd fuel d 0
      (some (List.replicate dir.iSizeLo.toUInt64.toNat 0)) dir.iSizeLo.toUInt64 = pure r ∧
    scanDirectory ((quiet disk).device w) rd r.buffer r.bytesRead.toNat (r.bytesRead.toNat + 1) 0 [] =
      pure all

theorem listed_of_live {all : List DirEntryInfo} (h : Live disk w rd fuel d all) :
    ∃ dir, Listed disk w rd fuel d dir all := by
  rw [Live, listDirectory] at h
  split at h
  · cases pure_injective h
  · rename_i hmounted
    obtain ⟨found, hfound, h⟩ := bind_eq_pure.mp h
    cases found with
    | none => cases pure_injective h
    | some dir =>
        dsimp only at h
        split at h
        · cases pure_injective h
        · rename_i hdir
          split at h
          · rename_i hsize
            cases pure_injective h
            exact ⟨dir, by simpa using hmounted, hfound, by simpa using hdir, fun _ => rfl,
              fun hne => absurd (beq_iff_eq.mp hsize) hne⟩
          · rename_i hsize
            obtain ⟨r, hr, h⟩ := bind_eq_pure.mp h
            split at h
            · cases pure_injective h
            · rename_i hok
              obtain ⟨entries, hentries, h⟩ := bind_eq_pure.mp h
              cases pure_injective h
              exact ⟨dir, by simpa using hmounted, hfound, by simpa using hdir,
                fun h0 => absurd (beq_iff_eq.mpr h0) hsize, fun _ => ⟨r, by simpa using hok, hr, hentries⟩⟩

variable {all : List DirEntryInfo} {r : Option (List DirEntryInfo)}

theorem clippedSize_pos {dir : Ext4Inode} {size : UInt64} (h : ReadFile.clippedSize dir 0 size ≠ 0) :
    size ≠ 0 ∧ 0 < fileSize dir := by
  rw [ReadFile.clippedSize, UInt64.zero_add, UInt64.sub_zero] at h
  split at h
  · rename_i hlt
    exact ⟨by rintro rfl; exact absurd hlt (by simp), UInt64.pos_iff_ne_zero.mpr h⟩
  · rename_i hle
    refine ⟨h, UInt64.lt_of_lt_of_le (UInt64.pos_iff_ne_zero.mpr h) (UInt64.not_lt.mp hle)⟩

theorem listing_cut (hlive : Live disk w rd fuel d all) (hcut : ListingCut disk w rd fuel fails d s)
    (hexec : exec (listDirectory (flaky disk w fails) rd fuel d) s = (.ok r, s')) : r = none := by
  obtain ⟨dir, hlisted⟩ := listed_of_live hlive
  have hlists : ∀ {x t}, exec (readInode (flaky disk w fails) rd d) s = (.ok (some x), t) →
      x = dir ∧ Lists (flaky disk w fails) rd d s x t := by
    intro x t hx
    obtain rfl := Option.some.inj (pure_injective ((inode_of_reads hx).symm.trans hlisted.reads))
    exact ⟨rfl, hx, hlisted.isDir⟩
  have hnone : ∀ {res : ReadResult}, r.isSome = res.ok → res.ok = false → r = none := by
    intro res hsome hok
    exact Option.isNone_iff_eq_none.mp (by rw [← Option.not_isSome, hsome, hok]; rfl)
  cases hcut with
  | inode h =>
      rw [listDirectory, if_neg (by simp [hlisted.mounted])] at hexec
      obtain ⟨found, t, hfound, hexec⟩ := exec_bind_ok.mp hexec
      obtain rfl := (readInode_noticed d).none hfound h
      cases hexec
      rfl
  | again reads size h =>
      obtain ⟨rfl, hlist⟩ := hlists reads
      obtain ⟨buffer, res, u, hread, hok⟩ := listDirectory_read hlist hlisted.mounted size hexec
      refine hnone hok ?_
      rw [readFileData, if_neg (by simp [hlisted.mounted, size])] at hread
      obtain ⟨found, t, hfound, hread⟩ := exec_bind_ok.mp hread
      obtain rfl := (readInode_noticed d).none hfound h
      cases hread
      rfl
  | data comes maps present h =>
      obtain ⟨reads, again, comes⟩ := comes
      obtain ⟨rfl, hlist⟩ := hlists reads
      obtain ⟨hsize, hpos⟩ := clippedSize_pos (fun h0 => not_comes_zero (h0 ▸ comes))
      obtain ⟨buffer, res, u, hread, hok⟩ := listDirectory_read hlist hlisted.mounted hsize hexec
      obtain ⟨out, hloop⟩ := readFileData_loop ⟨hlisted.mounted, hsize, again, hpos⟩ hread
      refine hnone hok ((copyLoop_returned hloop).2.mpr ⟨_, _, comes, _, _, maps, present, ?_⟩)
      exact flaky_fails h

theorem readFileData_same {size : UInt64} {buffer : List Byte} {res res' : ReadResult}
    (hexec : exec (readFileData (flaky disk w fails) rd fuel d 0 (some buffer) size) s = (.ok res, s'))
    (hquiet : readFileData ((quiet disk).device w) rd fuel d 0 (some buffer) size = pure res')
    (hok : res'.ok = true) (hreads : ¬Fails (readInode (flaky disk w fails) rd d) s)
    (hmaps : ∀ dir t, exec (readInode (flaky disk w fails) rd d) s = (.ok (some dir), t) →
      ∀ logicalBlock v, Comes (flaky disk w fails) rd dir fuel 0 (ReadFile.clippedSize dir 0 size) t
        logicalBlock v → ¬Fails (mapBlock (flaky disk w fails) rd fuel dir logicalBlock) v ∨
          Hole disk w rd fuel dir logicalBlock)
    (hdata : ∀ dir t, exec (readInode (flaky disk w fails) rd d) s = (.ok (some dir), t) →
      ∀ logicalBlock v, Comes (flaky disk w fails) rd dir fuel 0 (ReadFile.clippedSize dir 0 size) t
        logicalBlock v → ∀ physBlock u, exec (mapBlock (flaky disk w fails) rd fuel dir logicalBlock) v =
          (.ok (some physBlock), u) → physBlock ≠ 0 →
            ¬Fails (readBlock (flaky disk w fails) physBlock rd.blockSize) u) : res = res' := by
  rw [readFileData] at hexec hquiet
  split at hexec
  · rename_i hz
    rw [if_pos hz] at hquiet
    cases pure_injective hquiet
    cases hok
  · rename_i hz
    rw [if_neg hz] at hquiet
    obtain ⟨found, t, hfound, hexec⟩ := exec_bind_ok.mp hexec
    obtain ⟨found', hfound', hquiet⟩ := bind_eq_pure.mp hquiet
    have hagrees := readInode_related agrees_congruence (flaky_agrees disk w fails) rd d
    obtain rfl := pure_injective ((agrees_of_reads hagrees hreads hfound).symm.trans hfound')
    cases found with
    | none =>
        cases pure_injective hquiet
        cases hok
    | some dir =>
        dsimp only at hexec hquiet
        split at hexec
        · rename_i hend
          rw [if_pos hend] at hquiet
          cases hexec
          exact pure_injective hquiet
        · rename_i hend
          rw [if_neg hend] at hquiet
          obtain ⟨⟨ok, out⟩, u, hloop, hexec⟩ := exec_bind_ok.mp hexec
          obtain ⟨⟨ok', out'⟩, hloop', hquiet⟩ := bind_eq_pure.mp hquiet
          cases ok' with
          | false =>
              cases pure_injective hquiet
              cases hok
          | true =>
              obtain ⟨rfl, rfl⟩ := copyLoop_clear hloop hloop' (hmaps dir t hfound) (hdata dir t hfound)
              cases hexec
              exact pure_injective hquiet

theorem listing_clear (hlive : Live disk w rd fuel d all) (hcut : ¬ListingCut disk w rd fuel fails d s)
    (hmaps : MappingReads disk w rd fuel fails d s)
    (hexec : exec (listDirectory (flaky disk w fails) rd fuel d) s = (.ok r, s')) :
    ∃ entries, r = some entries ∧ List.Forall₂ SameEntry entries all := by
  obtain ⟨dir, hlisted⟩ := listed_of_live hlive
  rw [listDirectory, if_neg (by simp [hlisted.mounted])] at hexec
  obtain ⟨found, t, hfound, hexec⟩ := exec_bind_ok.mp hexec
  have hagrees := readInode_related agrees_congruence (flaky_agrees disk w fails) rd d
  obtain rfl := pure_injective
    ((agrees_of_reads hagrees (fun h => hcut (.inode h)) hfound).symm.trans hlisted.reads)
  dsimp only at hexec
  rw [if_neg (by simp [hlisted.isDir])] at hexec
  split at hexec
  · rename_i hsize
    cases hexec
    exact ⟨[], rfl, by rw [hlisted.empty (beq_iff_eq.mp hsize)]; exact .nil⟩
  · rename_i hsize
    have hsize : dir.iSizeLo.toUInt64 ≠ 0 := fun h0 => hsize (beq_iff_eq.mpr h0)
    obtain ⟨res', hok, hquiet, hscan⟩ := hlisted.content hsize
    obtain ⟨res, u, hread, hexec⟩ := exec_bind_ok.mp hexec
    have hsame : res = res' := by
      refine readFileData_same hread hquiet hok (fun h => hcut (.again hfound hsize h)) ?_ ?_
      · exact fun x v hx l z hl => hmaps x l z ⟨hfound, hx, hl⟩
      · exact fun x v hx l z hl p y hp hne h => hcut (.data ⟨hfound, hx, hl⟩ hp hne h)
    subst hsame
    rw [if_neg (by simp [hok])] at hexec
    obtain ⟨entries, v, hentries, hexec⟩ := exec_bind_ok.mp hexec
    cases hexec
    exact ⟨entries, rfl, scanDirectory_same hentries hscan .nil⟩

theorem statInode_reads {i : UInt32} {inode : Ext4Inode} {st : Option FileStat}
    (hinode : readInode ((quiet disk).device w) rd i = pure (some inode))
    (hreads : ¬Fails (readInode (flaky disk w fails) rd i) s)
    (hexec : exec (statInode (flaky disk w fails) rd fuel i) s = (.ok st, s')) : st.isSome = true := by
  rw [statInode] at hexec
  obtain ⟨found, t, hfound, hexec⟩ := exec_bind_ok.mp hexec
  have hagrees := readInode_related agrees_congruence (flaky_agrees disk w fails) rd i
  obtain rfl := pure_injective ((agrees_of_reads hagrees hreads hfound).symm.trans hinode)
  dsimp only at hexec
  split at hexec
  · obtain ⟨target, u, _, hexec⟩ := exec_bind_ok.mp hexec
    cases hexec
    rfl
  · cases hexec
    rfl

end Listing

end Linux2Win.ListingFailures
