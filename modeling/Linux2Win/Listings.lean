import Linux2Win.Directory
import Linux2Win.Programs

namespace Linux2Win.Listings

open Bytes Devices Ext4Types Reader FileData Directory Programs

/-- A name that a listing can hold: not empty, and neither of the two dots. -/
def ListedName (name : Name) : Prop := name ≠ [] ∧ name ≠ [dot] ∧ name ≠ [dot, dot]

variable {dev : Device Id} {rd : Ext4Reader} {fuel : Nat}

theorem dirEntry_name {inode : UInt32} {name : Name} {fileType : Byte} {e : DirEntryInfo}
    (h : dirEntry dev rd inode name fileType = pure e) : e.name = name := by
  rw [dirEntry] at h
  dsimp only at h
  split at h
  · obtain ⟨child, _, h⟩ := bind_eq_pure.mp h
    cases child with
    | none => cases pure_injective h; rfl
    | some child => cases pure_injective h; rfl
  · cases pure_injective h
    rfl

theorem recordEntry_name {content : List Byte} {offset : Nat} {e : DirEntryInfo}
    (h : recordEntry dev rd content offset = pure (some e)) : ListedName e.name := by
  rw [recordEntry] at h
  dsimp only at h
  split at h
  · exact nomatch pure_injective h
  · rename_i hlive
    split at h
    · exact absurd h throw_ne_pure
    · rename_i hlen
      split at h
      · exact nomatch pure_injective h
      · rename_i hdots
        obtain ⟨e', hentry, h⟩ := bind_eq_pure.mp h
        cases pure_injective h
        rw [dirEntry_name hentry]
        simp only [Bool.or_eq_true, beq_iff_eq, not_or] at hlive hdots
        refine ⟨fun hnil => hlive.2 ?_, hdots.1, hdots.2⟩
        have hzero := congrArg List.length hnil
        simp only [List.length_take, List.length_drop, List.length_nil] at hzero
        apply UInt8.toNat_inj.mp
        change _ = 0
        omega

theorem scanDirectory_names {content : List Byte} {bytesRead turns offset : Nat}
    {entries out : List DirEntryInfo} (hentries : ∀ e ∈ entries, ListedName e.name)
    (h : scanDirectory dev rd content bytesRead turns offset entries = pure out) :
    ∀ e ∈ out, ListedName e.name := by
  induction turns generalizing offset entries with
  | zero => exact absurd h throw_ne_pure
  | succ turns ih =>
      rw [scanDirectory] at h
      split at h
      · cases pure_injective h
        exact hentries
      · dsimp only at h
        split at h
        · cases pure_injective h
          exact hentries
        · obtain ⟨found, hfound, h⟩ := bind_eq_pure.mp h
          refine ih (fun e he => ?_) h
          rcases List.mem_append.mp he with he | he
          · exact hentries e he
          · obtain rfl := Option.mem_toList.mp he
            exact recordEntry_name hfound

theorem listDirectory_spec {dirInodeNum : UInt32} {entries : List DirEntryInfo}
    (h : listDirectory dev rd fuel dirInodeNum = pure (some entries)) :
    (∃ inode, readInode dev rd dirInodeNum = pure (some inode) ∧ inode.iMode &&& sIfmt = sIfdir) ∧
      ∀ e ∈ entries, ListedName e.name := by
  rw [listDirectory] at h
  split at h
  · exact nomatch pure_injective h
  · obtain ⟨inode, hinode, h⟩ := bind_eq_pure.mp h
    cases inode with
    | none => exact nomatch pure_injective h
    | some inode =>
        dsimp only at h
        split at h
        · exact nomatch pure_injective h
        · rename_i hdir
          refine ⟨⟨inode, hinode, by simpa using hdir⟩, ?_⟩
          split at h
          · cases pure_injective h
            exact nofun
          · obtain ⟨r, _, h⟩ := bind_eq_pure.mp h
            split at h
            · exact nomatch pure_injective h
            · obtain ⟨found, hscan, h⟩ := bind_eq_pure.mp h
              cases pure_injective h
              exact scanDirectory_names (fun e he => absurd he List.not_mem_nil) hscan

structure StatOf (rd : Ext4Reader) (inode : Ext4Inode) (st : FileStat) : Prop where
  isDirectory : st.isDirectory = (inode.iMode &&& sIfmt == sIfdir)
  atime : st.atime = inode.iAtime
  mtime : st.mtime = inode.iMtime
  crtime : st.crtime = if rd.inodeSize > 128 then inode.iCrtime else inode.iMtime

theorem statInode_spec {inodeNum : UInt32} {st : FileStat}
    (h : statInode dev rd fuel inodeNum = pure (some st)) :
    ∃ inode, readInode dev rd inodeNum = pure (some inode) ∧ StatOf rd inode st := by
  rw [statInode] at h
  obtain ⟨inode, hinode, h⟩ := bind_eq_pure.mp h
  cases inode with
  | none => exact nomatch pure_injective h
  | some inode =>
      refine ⟨inode, hinode, ?_⟩
      dsimp only at h
      split at h
      · obtain ⟨target, _, h⟩ := bind_eq_pure.mp h
        cases pure_injective h
        exact ⟨rfl, rfl, rfl, rfl⟩
      · obtain ⟨target, _, h⟩ := bind_eq_pure.mp h
        cases pure_injective h
        exact ⟨rfl, rfl, rfl, rfl⟩

theorem listed_isDirectory {inodeNum : UInt32} {entries : List DirEntryInfo} {st : FileStat}
    (hlist : listDirectory dev rd fuel inodeNum = pure (some entries))
    (hstat : statInode dev rd fuel inodeNum = pure (some st)) : st.isDirectory = true := by
  obtain ⟨⟨inode, hinode, hdir⟩, _⟩ := listDirectory_spec hlist
  obtain ⟨inode', hinode', hst⟩ := statInode_spec hstat
  cases pure_injective (hinode.symm.trans hinode')
  rw [hst.isDirectory, hdir]
  exact beq_self_eq_true _

end Linux2Win.Listings
