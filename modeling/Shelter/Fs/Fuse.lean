import Shelter.Memory.GuestMemory

/-!
# The messages of the FUSE protocol

The structures of `fuse.rs` as the guest sees them: a request is decoded from bytes, a reply is
encoded to bytes. All numbers are little endian. Of a request, only the fields that the server reads
are kept; every reply is kept whole, with its padding.
-/

open Bytes

namespace Shelter.Fs

/-- The number of `w` bits at this offset. -/
def word (w : ℕ) (bs : List Byte) (off : ℕ) : BitVec w :=
  BitVec.ofNat w (leNat ((bs.drop off).take (w / 8)))

def le {w : ℕ} (v : BitVec w) : List Byte := leBytes (w / 8) v.toNat

@[simp] theorem length_le {w : ℕ} (v : BitVec w) : (le v).length = w / 8 := length_leBytes _ _

theorem word_append {w off : ℕ} (hw : 2 ^ w ≤ 256 ^ (w / 8)) {before : List Byte}
    (hoff : before.length = off) (v : BitVec w) (rest : List Byte) :
    word w (before ++ (le v ++ rest)) off = v := by
  unfold word
  rw [List.drop_left' hoff, List.take_left' (length_le v)]
  exact ofNat_leNat_leBytes _ v hw

theorem le_word {w off : ℕ} (hw : 256 ^ (w / 8) ≤ 2 ^ w) {bs : List Byte}
    (hlen : off + w / 8 ≤ bs.length) : le (word w bs off) = (bs.drop off).take (w / 8) := by
  have hbytes : ((bs.drop off).take (w / 8)).length = w / 8 := by
    rw [List.length_take, List.length_drop]
    omega
  have hlt := leNat_lt ((bs.drop off).take (w / 8))
  rw [hbytes] at hlt
  unfold le word
  rw [BitVec.toNat_ofNat, Nat.mod_eq_of_lt (hlt.trans_le hw)]
  nth_rewrite 1 [← hbytes]
  exact leBytes_leNat _

/-! ## Constants -/

def kernelVersion : U32 := 7
def kernelMinorVersion : U32 := 27
def rootId : U64 := 1

def fattrMode : U32 := 1
def fattrUid : U32 := 2
def fattrGid : U32 := 4
def fattrSize : U32 := 8
def fattrAtime : U32 := 16
def fattrMtime : U32 := 32
def fattrFh : U32 := 64
def fattrAtimeNow : U32 := 128
def fattrMtimeNow : U32 := 256

def releaseFlush : U32 := 1
def releaseFlockUnlock : U32 := 2
def getattrFh : U32 := 1
def writeCache : U32 := 1
def writeLockowner : U32 := 2
def writeKillPriv : U32 := 4
def readLockowner : U32 := 2

namespace OpenOptions

def directIo : U32 := 1
def keepCache : U32 := 2
def cacheDir : U32 := 8

end OpenOptions

namespace FsOptions

def asyncRead : U64 := 1 <<< 0
def atomicOTrunc : U64 := 1 <<< 3
def bigWrites : U64 := 1 <<< 5
def hasIoctlDir : U64 := 1 <<< 11
def autoInvalData : U64 := 1 <<< 12
def doReaddirplus : U64 := 1 <<< 13
def readdirplusAuto : U64 := 1 <<< 14
def asyncDio : U64 := 1 <<< 15
def writebackCache : U64 := 1 <<< 16
def parallelDirops : U64 := 1 <<< 18
def handleKillpriv : U64 := 1 <<< 19
def maxPages : U64 := 1 <<< 22
def submounts : U64 := 1 <<< 27
def initExt : U64 := 1 <<< 30
def securityCtx : U64 := 1 <<< 32
def createSuppGroup : U64 := 1 <<< 34

/-- Bit 26 is the only one below 35 that has no name in the set. -/
def all : U64 := (1 <<< 35 - 1 : U64) &&& ~~~ (1 <<< 26 : U64)

/-- `from_bits_truncate`. -/
def ofBits (bits : U64) : U64 := bits &&& all

/-- `contains` of a flag. -/
def has (options flag : U64) : Bool := options &&& flag = flag

end FsOptions

inductive Opcode
  | lookup | forget | getattr | setattr | readlink | symlink | mknod | mkdir | unlink | rmdir
  | rename | link | open | read | write | statfs | release | fsync | setxattr | getxattr
  | listxattr | removexattr | flush | init | opendir | readdir | releasedir | fsyncdir | getlk
  | setlk | setlkw | access | create | interrupt | bmap | destroy | ioctl | poll | notifyReply
  | batchForget | fallocate | readdirplus | rename2 | lseek | copyFileRange | setupMapping
  | removeMapping
  deriving DecidableEq, Repr

def Opcode.ofU32 (x : U32) : Option Opcode :=
  match x.toNat with
  | 1 => some .lookup
  | 2 => some .forget
  | 3 => some .getattr
  | 4 => some .setattr
  | 5 => some .readlink
  | 6 => some .symlink
  | 8 => some .mknod
  | 9 => some .mkdir
  | 10 => some .unlink
  | 11 => some .rmdir
  | 12 => some .rename
  | 13 => some .link
  | 14 => some .open
  | 15 => some .read
  | 16 => some .write
  | 17 => some .statfs
  | 18 => some .release
  | 20 => some .fsync
  | 21 => some .setxattr
  | 22 => some .getxattr
  | 23 => some .listxattr
  | 24 => some .removexattr
  | 25 => some .flush
  | 26 => some .init
  | 27 => some .opendir
  | 28 => some .readdir
  | 29 => some .releasedir
  | 30 => some .fsyncdir
  | 31 => some .getlk
  | 32 => some .setlk
  | 33 => some .setlkw
  | 34 => some .access
  | 35 => some .create
  | 36 => some .interrupt
  | 37 => some .bmap
  | 38 => some .destroy
  | 39 => some .ioctl
  | 40 => some .poll
  | 41 => some .notifyReply
  | 42 => some .batchForget
  | 43 => some .fallocate
  | 44 => some .readdirplus
  | 45 => some .rename2
  | 46 => some .lseek
  | 47 => some .copyFileRange
  | 48 => some .setupMapping
  | 49 => some .removeMapping
  | _ => none

/-! ## Requests -/

structure InHeader where
  len : U32
  opcode : U32
  unique : U64
  nodeid : U64
  uid : U32
  gid : U32
  pid : U32
  deriving DecidableEq, Repr

variable (bs : List Byte)

namespace InHeader

def size : ℕ := 40

def ofBytes : InHeader where
  len := word 32 bs 0
  opcode := word 32 bs 4
  unique := word 64 bs 8
  nodeid := word 64 bs 16
  uid := word 32 bs 24
  gid := word 32 bs 28
  pid := word 32 bs 32

end InHeader

structure SetattrIn where
  valid : U32
  fh : U64
  size : U64
  atime : U64
  mtime : U64
  ctime : U64
  atimensec : U32
  mtimensec : U32
  ctimensec : U32
  mode : U32
  uid : U32
  gid : U32
  deriving DecidableEq, Repr

def SetattrIn.ofBytes : SetattrIn where
  valid := word 32 bs 0
  fh := word 64 bs 8
  size := word 64 bs 16
  atime := word 64 bs 32
  mtime := word 64 bs 40
  ctime := word 64 bs 48
  atimensec := word 32 bs 56
  mtimensec := word 32 bs 60
  ctimensec := word 32 bs 64
  mode := word 32 bs 68
  uid := word 32 bs 76
  gid := word 32 bs 80

/-- `ReadIn` and `WriteIn` have the same 40 bytes. -/
structure TransferIn where
  fh : U64
  offset : U64
  size : U32
  /-- `read_flags`, or `write_flags` -/
  transferFlags : U32
  lockOwner : U64
  flags : U32
  deriving DecidableEq, Repr

def TransferIn.ofBytes : TransferIn where
  fh := word 64 bs 0
  offset := word 64 bs 8
  size := word 32 bs 16
  transferFlags := word 32 bs 20
  lockOwner := word 64 bs 24
  flags := word 32 bs 32

structure CopyfilerangeIn where
  fhIn : U64
  offIn : U64
  nodeidOut : U64
  fhOut : U64
  offOut : U64
  len : U64
  flags : U64
  deriving DecidableEq, Repr

def CopyfilerangeIn.ofBytes : CopyfilerangeIn where
  fhIn := word 64 bs 0
  offIn := word 64 bs 8
  nodeidOut := word 64 bs 16
  fhOut := word 64 bs 24
  offOut := word 64 bs 32
  len := word 64 bs 40
  flags := word 64 bs 48

structure SetupmappingIn where
  fh : U64
  foffset : U64
  len : U64
  flags : U64
  moffset : U64
  deriving DecidableEq, Repr

def SetupmappingIn.ofBytes : SetupmappingIn where
  fh := word 64 bs 0
  foffset := word 64 bs 8
  len := word 64 bs 16
  flags := word 64 bs 24
  moffset := word 64 bs 32

structure RemovemappingOne where
  moffset : U64
  len : U64
  deriving DecidableEq, Repr

def RemovemappingOne.ofBytes : RemovemappingOne where
  moffset := word 64 bs 0
  len := word 64 bs 8

/-! ## Replies -/

structure OutHeader where
  len : U32
  error : U32
  unique : U64
  deriving DecidableEq, Repr

namespace OutHeader

def size : ℕ := 16

def toBytes (h : OutHeader) : List Byte := le h.len ++ le h.error ++ le h.unique

@[simp] theorem length_toBytes (h : OutHeader) : h.toBytes.length = 16 := by simp [toBytes]

theorem toBytes_word_len (h : OutHeader) : word 32 h.toBytes 0 = h.len := by
  exact word_append (by decide) (List.length_nil) h.len _

end OutHeader

/-- `stat64`, with signed fields in two's complement. -/
structure Stat where
  dev : U64
  ino : U64
  nlink : U64
  mode : U32
  uid : U32
  gid : U32
  rdev : U64
  size : U64
  blksize : U64
  blocks : U64
  atime : U64
  atimeNsec : U64
  mtime : U64
  mtimeNsec : U64
  ctime : U64
  ctimeNsec : U64
  deriving DecidableEq, Repr

namespace Stat

/-- `mem::zeroed`. -/
def zero : Stat := ⟨0, 0, 0, 0, 0, 0, 0, 0, 0, 0, 0, 0, 0, 0, 0, 0⟩

/-- `From<SetattrIn> for stat64`. -/
def ofSetattrIn (sai : SetattrIn) : Stat :=
  { zero with
    mode := sai.mode
    uid := sai.uid
    gid := sai.gid
    size := sai.size
    atime := sai.atime
    mtime := sai.mtime
    ctime := sai.ctime
    atimeNsec := sai.atimensec.setWidth 64
    mtimeNsec := sai.mtimensec.setWidth 64
    ctimeNsec := sai.ctimensec.setWidth 64 }

def attrBytes (st : Stat) (flags : U32) : List Byte :=
  le st.ino ++ le st.size ++ le st.blocks ++ le st.atime ++ le st.mtime ++ le st.ctime ++
    le (st.atimeNsec.setWidth 32) ++ le (st.mtimeNsec.setWidth 32) ++
    le (st.ctimeNsec.setWidth 32) ++ le st.mode ++ le (st.nlink.setWidth 32) ++ le st.uid ++
    le st.gid ++ le (st.rdev.setWidth 32) ++ le (st.blksize.setWidth 32) ++ le flags

@[simp] theorem length_attrBytes (st : Stat) (flags : U32) : (st.attrBytes flags).length = 88 := by
  simp [attrBytes]

end Stat

structure Statvfs where
  bsize : U64
  frsize : U64
  blocks : U64
  bfree : U64
  bavail : U64
  files : U64
  ffree : U64
  namemax : U64
  deriving DecidableEq, Repr

structure Duration where
  secs : U64
  subsecNanos : U32
  deriving DecidableEq, Repr

/-- What the server tells about a file it has looked up. -/
structure Entry where
  inode : U64
  generation : U64
  attr : Stat
  attrFlags : U32
  attrTimeout : Duration
  entryTimeout : Duration
  deriving DecidableEq, Repr

inductive Out
  | entry (e : Entry) (attrFlags : U32)
  | attr (st : Stat) (timeout : Duration)
  | opened (fh : U64) (openFlags : U32)
  | written (size : U32)
  | statfs (st : Statvfs)
  | xattrSize (size : U32)
  | init (maxReadahead flags : U32) (maxBackground congestionThreshold : U16)
      (maxWrite timeGran : U32) (maxPages : U16) (flags2 : U32)
  | ioctl
  | lseek (offset : U64)
  deriving DecidableEq, Repr

def Entry.toBytes (e : Entry) (attrFlags : U32) : List Byte :=
  le e.inode ++ le e.generation ++ le e.entryTimeout.secs ++ le e.attrTimeout.secs ++
    le e.entryTimeout.subsecNanos ++ le e.attrTimeout.subsecNanos ++ e.attr.attrBytes attrFlags

@[simp] theorem Entry.length_toBytes (e : Entry) (attrFlags : U32) :
    (e.toBytes attrFlags).length = 128 := by
  simp [Entry.toBytes]

def openOutBytes (fh : U64) (openFlags : U32) : List Byte := le fh ++ le openFlags ++ le (0 : U32)

namespace Out

/-- The bytes of `EntryOut`, `AttrOut`, `OpenOut`, `WriteOut`, `Kstatfs`, `GetxattrOut`, `InitOut`,
`IoctlOut` and `LseekOut`. -/
def toBytes : Out → List Byte
  | entry e attrFlags => e.toBytes attrFlags
  | attr st timeout =>
    le timeout.secs ++ le timeout.subsecNanos ++ le (0 : U32) ++ st.attrBytes 0
  | opened fh openFlags => openOutBytes fh openFlags
  | written size => le size ++ le (0 : U32)
  | statfs st =>
    le st.blocks ++ le st.bfree ++ le st.bavail ++ le st.files ++ le st.ffree ++
      le (st.bsize.setWidth 32) ++ le (st.namemax.setWidth 32) ++ le (st.frsize.setWidth 32) ++
      le (0 : U32) ++ List.replicate 24 0
  | xattrSize size => le size ++ le (0 : U32)
  | init maxReadahead flags maxBackground congestionThreshold maxWrite timeGran maxPages flags2 =>
    le kernelVersion ++ le kernelMinorVersion ++ le maxReadahead ++ le flags ++
      le maxBackground ++ le congestionThreshold ++ le maxWrite ++ le timeGran ++ le maxPages ++
      le (0 : U16) ++ le flags2 ++ List.replicate 28 0
  | ioctl => List.replicate 16 0
  | lseek offset => le offset

theorem length_toBytes_le (o : Out) : o.toBytes.length ≤ 128 := by
  cases o <;> simp [toBytes, openOutBytes]

def entries : Out → List U64
  | entry e _ => [e.inode]
  | _ => []

end Out

/-- A directory entry as the file system hands it to the server. -/
structure DirEntry where
  ino : U64
  offset : U64
  type : U32
  name : List Byte
  deriving DecidableEq, Repr

/-- The bytes of `Dirent`, without the name. -/
def DirEntry.toBytes (d : DirEntry) : List Byte :=
  le d.ino ++ le d.offset ++ le (BitVec.ofNat 32 d.name.length) ++ le d.type

@[simp] theorem DirEntry.length_toBytes (d : DirEntry) : d.toBytes.length = 24 := by
  simp [DirEntry.toBytes]

end Shelter.Fs
