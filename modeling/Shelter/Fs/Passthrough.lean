import Shelter.Fs.Host
import Shelter.Fs.Multikey

/-!
# The passthrough file system

`PassthroughFs` serves a directory of the host. It keeps two tables: the inodes that the guest
knows, each with a descriptor and a lookup count, and the open files. Most calls find a descriptor
in one of them and pass the request on to the host.

A program `init.krun` that is no file of the host is served beside the directory, under an inode of
its own that is in no table.
-/

open Bytes

namespace Shelter.Fs

open Virtio Prog

structure InodeAltKey where
  ino : U64
  dev : U64
  deriving DecidableEq, Repr

structure InodeData where
  inode : U64
  file : Fd
  refcount : U64
  deriving DecidableEq, Repr

structure HandleData where
  inode : U64
  file : Fd
  deriving DecidableEq, Repr

inductive CachePolicy
  | never
  | auto
  | always
  deriving DecidableEq, Repr

structure Config where
  entryTimeout : Duration
  attrTimeout : Duration
  cachePolicy : CachePolicy
  writeback : Bool
  rootDir : CStr
  xattr : Bool
  /-- the path came in as a C string -/
  rootDir_nul : 0 ∉ rootDir
  deriving DecidableEq

structure PassthroughFs where
  inodes : MultikeyBTreeMap U64 InodeAltKey InodeData
  nextInode : U64
  initInode : U64
  handles : U64 → Option HandleData
  nextHandle : U64
  initHandle : U64
  procSelfFd : Fd
  writeback : Bool
  cfg : Config

def PassthroughFs.new (cfg : Config) (procSelfFd : Fd) : PassthroughFs where
  inodes := .new
  nextInode := rootId + 2
  initInode := rootId + 1
  handles := fun _ => none
  nextHandle := 1
  initHandle := 0
  procSelfFd := procSelfFd
  writeback := false
  cfg := cfg

/-- The file system with the thread that works for it. -/
structure Served where
  fs : PassthroughFs
  thread : Thread

namespace Passthrough

abbrev Step (A : Type) := Prog Served IoErr A

variable {A K M : Type}

def oWronly : U32 := 1
def oRdwr : U32 := 2
def oAccmode : U32 := 3
def oCreat : U32 := 0x40
def oAppend : U32 := 0x400
def oNonblock : U32 := 0x800
def oDirectory : U32 := 0x10000
def oNofollow : U32 := 0x20000
def oCloexec : U32 := 0x80000
def oPath : U32 := 0x200000

def atRemovedir : U32 := 0x200
def atSymlinkFollow : U32 := 0x400

/-- `UTIME_NOW` and `UTIME_OMIT`. -/
def utimeNow : U64 := 0x3fffffff
def utimeOmit : U64 := 0x3ffffffe

def pathMax : ℕ := 4096

def initName : CStr := [105, 110, 105, 116, 46, 107, 114, 117, 110]

/-- `format!("{}", fd)`. -/
def decimal (fd : Fd) : CStr := (Nat.toDigits 10 fd).map fun c => BitVec.ofNat 8 c.toNat

/-! ## System calls -/

/-- A call, made for the request of `requester` if there is one. -/
def sysFor (requester : Option Context) (answer : ℕ → Except Errno A) (call : SysCall) : Step A :=
  fun s =>
    let r := answer s.thread.log.length
    some (r.mapError .os, { s with thread := s.thread.perform call requester r.isOk })

def sys (answer : ℕ → Except Errno A) (call : SysCall) : Step A := sysFor none answer call

/-- The kernel refuses to map at an address that is not the beginning of a page, an empty range and
one beyond the address space. -/
def mmapAnswer (host : Host) (addr len : U64) (fd : Option Fd) (n : ℕ) : Except Errno Unit :=
  if addr.toNat % pageSize ≠ 0 ∨ len = 0 then .error .einval
  else if 2 ^ 64 < addr.toNat + pageAlign len.toNat then .error .enomem
  else match fd with
    | none => host.anonymous n
    | some _ => host.unit n

def mmap (host : Host) (addr len : U64) (prot flags : U32) (fd : Option Fd) (offset : U64) :
    Step Unit :=
  sys (mmapAnswer host addr len fd) (.mmap addr len prot flags fd offset)

/-- Whether a vectored transfer at this offset is refused, as it is for a negative one. -/
def transfer (host : Host) (offset : U64) (n : ℕ) : Except Errno ℕ :=
  if 2 ^ 63 ≤ offset.toNat then .error .einval else host.count n

/-- The bytes that `preadv` delivers: some of the file from the offset on, no more than fit. -/
def preadv (host : Host) (offset : U64) (n : ℕ) : Source := fun bufs =>
  match transfer host offset n with
  | .error _ => ([], .error .other)
  | .ok k =>
    let data := ((host.content n).drop offset.toNat).take (min k (bufs.map (·.len)).sum)
    (data, .ok data.length)

def pwritev (host : Host) (offset : U64) (n : ℕ) : Sink := fun bufs =>
  match transfer host offset n with
  | .error _ => .error .other
  | .ok k => .ok (min k (bufs.map (·.len)).sum)

/-- The error of a transfer: `other` comes from the file. -/
def transferError (host : Host) (offset : U64) (n : ℕ) (e : IoError) : IoErr :=
  match e, transfer host offset n with
  | .other, .error code => .os code
  | e, _ => .kind e

def recordTransfer (bufs : List VolatileSlice) (requester : Option Context) (call : SysCall)
    (ok : Bool) (s : Served) : Served :=
  if bufs.isEmpty then s else { s with thread := s.thread.perform call requester ok }

/-! ## Credentials -/

/-- `ScopedUid::new` and `ScopedGid::new`: whether there is a guard to drop. -/
def scopedNew (host : Host) (call : U32 → SysCall) (val : U32) : Step Bool :=
  if val = 0 then pure false
  else do
    sys host.unit (call val)
    pure true

def scopedDrop (host : Host) (call : U32 → SysCall) (guard : Bool) : Step Unit :=
  if guard then do
    let _ ← attempt (sys host.unit (call 0))
    pure ()
  else pure ()

/-- The body under the guards that `set_creds` returns. The gid is set before the uid, and its guard
is also dropped first. -/
def withCreds (host : Host) (uid gid : U32) (body : Step A) : Step A := do
  let gidGuard ← scopedNew host .setresgid gid
  match ← (attempt (scopedNew host .setresuid uid) : Step (Except IoErr Bool)) with
  | .error e => do
    scopedDrop host .setresgid gidGuard
    fail e
  | .ok uidGuard => do
    let r ← attempt body
    scopedDrop host .setresgid gidGuard
    scopedDrop host .setresuid uidGuard
    ofExcept r

/-! ## The tables -/

/-- `inodes.get(..).ok_or_else(ebadf)`. -/
def getInode (inode : U64) : Step InodeData := do
  let s ← get
  ofOption (.os .ebadf) (s.fs.inodes.get inode)

/-- `handles.get(..).filter(|hd| hd.inode == inode).ok_or_else(ebadf)`. -/
def getHandle (inode handle : U64) : Step HandleData := do
  let s ← get
  ofOption (.os .ebadf) ((s.fs.handles handle).filter fun hd => hd.inode = inode)

/-- The count of an inode that is known is raised, and an inode that is new gets a number. -/
def acquire (altkey : InodeAltKey) (file : Fd) : Step U64 := fun s =>
  match s.fs.inodes.getAlt altkey with
  | some data =>
    let inodes := s.fs.inodes.modify data.inode fun d => { d with refcount := d.refcount + 1 }
    some (.ok data.inode, { s with fs := { s.fs with inodes } })
  | none =>
    let inode := s.fs.nextInode
    let inodes := (s.fs.inodes.insert inode altkey ⟨inode, file, 1⟩).2
    some (.ok inode, { s with fs := { s.fs with inodes, nextInode := inode + 1 } })

def insertHandle (inode : U64) (file : Fd) : Step U64 := fun s =>
  let handle := s.fs.nextHandle
  let handles := Function.update s.fs.handles handle (some ⟨inode, file⟩)
  some (.ok handle, { s with fs := { s.fs with handles, nextHandle := handle + 1 } })

def saturatingSub (a b : U64) : U64 := if b ≤ a then a - b else 0

def forgetOne (inodes : MultikeyBTreeMap U64 InodeAltKey InodeData) (inode count : U64) :
    MultikeyBTreeMap U64 InodeAltKey InodeData :=
  match inodes.get inode with
  | none => inodes
  | some data =>
    let newCount := saturatingSub data.refcount count
    let inodes := inodes.modify inode fun d => { d with refcount := newCount }
    if newCount = 0 then (inodes.remove inode).2 else inodes

/-! ## Shared parts of the calls -/

section Calls

variable (host : Host)

def stat (file : Fd) : Step Stat := sys host.stat (.fstatat file)

def openInode (inode : U64) (flags : U32) : Step Fd := do
  let data ← getInode inode
  let s ← get
  let flags := if s.fs.writeback ∧ flags &&& oAccmode = oWronly then
    flags &&& ~~~ oAccmode ||| oRdwr else flags
  let flags := if s.fs.writeback ∧ flags &&& oAppend ≠ 0 then flags &&& ~~~ oAppend else flags
  sys host.fd (.openat (some s.fs.procSelfFd) (decimal data.file)
    ((flags ||| oCloexec) &&& ~~~ oNofollow) 0)

def doLookup (parent : U64) (name : CStr) : Step Entry := do
  let p ← getInode parent
  let f ← sys host.fd (.openat (some p.file) name (oPath ||| oNofollow ||| oCloexec) 0)
  let st ← stat host f
  let inode ← acquire ⟨st.ino, st.dev⟩ f
  let s ← get
  pure ⟨inode, 0, st, 0, s.fs.cfg.attrTimeout, s.fs.cfg.entryTimeout⟩

/-- A call on the part of the file system, while entries are collected in a `K`. -/
def onFs (x : Step A) : Prog (Served × K) IoErr A := zoom Prod.fst (fun s p => (s, p.2)) x

theorem onFs_none {x : Step A} {s : Served} (h : x s = none) (k : K) :
    onFs x (s, k) = none := by
  show Option.map _ (x s) = _
  rw [h]
  rfl

theorem onFs_some {x : Step A} {s s' : Served} {r : Except IoErr A}
    (h : x s = some (r, s')) (k : K) : onFs x (s, k) = some (r, s', k) := by
  show Option.map _ (x s) = _
  rw [h]
  rfl

def onEntries (x : Prog K IoErr A) : Prog (Served × K) IoErr A :=
  zoom Prod.snd (fun k p => (p.1, k)) x

/-- The loop over the entries of a directory. The comparison with `.` and `..` includes a zero byte,
which the names do not have. -/
def direntLoop (addEntry : DirEntry → Prog (Served × K) IoErr ℕ) :
    List DirEntry → Prog (Served × K) IoErr Unit
  | [] => pure ()
  | d :: rest => do
    let n ← (if [46, 0].isPrefixOf d.name ∨ [46, 46, 0].isPrefixOf d.name then pure 1
      else addEntry d)
    if n = 0 then pure () else direntLoop addEntry rest

def doReaddir (inode handle : U64) (size : U32) (offset : U64)
    (addEntry : DirEntry → Prog (Served × K) IoErr ℕ) : Prog (Served × K) IoErr Unit :=
  if size = 0 then pure ()
  else do
    let data ← onFs (getHandle inode handle)
    onFs (sys host.unit (.lseek data.file offset 0))
    let dirents ← onFs (sys host.dirents (.getdents64 data.file size))
    direntLoop addEntry dirents

def doOpen (inode : U64) (flags : U32) : Step (Option U64 × U32) := do
  let file ← openInode host inode flags
  let handle ← insertHandle inode file
  let s ← get
  let opts := match s.fs.cfg.cachePolicy with
    | .never => if flags &&& oDirectory = 0 then OpenOptions.directIo else 0
    | .always => if flags &&& oDirectory = 0 then OpenOptions.keepCache else OpenOptions.cacheDir
    | .auto => 0
  pure (some handle, opts)

def doRelease (inode handle : U64) : Step Unit := do
  let _ ← getHandle inode handle
  modify fun s =>
    { s with fs := { s.fs with handles := Function.update s.fs.handles handle none } }

def doGetattr (inode : U64) : Step (Stat × Duration) := do
  let data ← getInode inode
  let st ← stat host data.file
  let s ← get
  pure (st, s.fs.cfg.attrTimeout)

def doUnlink (parent : U64) (name : CStr) (flags : U32) : Step Unit := do
  let data ← getInode parent
  sys host.unit (.unlinkat data.file name flags)

/-! ## The calls -/

def init (capable : U64) : Step U64 := do
  let s ← get
  let f ← sys host.fd (.openat none s.fs.cfg.rootDir (oPath ||| oNofollow ||| oCloexec) 0)
  let st ← stat host f
  sys (fun _ => .ok ()) (.umask 0)
  modify fun s => { s with fs := { s.fs with
    inodes := (s.fs.inodes.insert rootId ⟨st.ino, st.dev⟩ ⟨rootId, f, 2⟩).2 } }
  let opts := FsOptions.doReaddirplus ||| FsOptions.readdirplusAuto
  if s.fs.cfg.writeback ∧ FsOptions.has capable FsOptions.writebackCache then do
    modify fun s => { s with fs := { s.fs with writeback := true } }
    pure (opts ||| FsOptions.writebackCache)
  else pure opts

def destroy : Step Unit :=
  modify fun s => { s with fs := { s.fs with handles := fun _ => none, inodes := .new } }

def statfs (inode : U64) : Step Statvfs := do
  let data ← getInode inode
  sys host.statvfs (.fstatvfs data.file)

def lookup (parent : U64) (name : CStr) : Step Entry := do
  let s ← get
  if s.fs.initInode ≠ 0 ∧ name = initName then
    let st := { Stat.zero with
      size := BitVec.ofNat 64 host.initBinary.length
      ino := s.fs.initInode
      mode := 0o100755 }
    pure ⟨s.fs.initInode, 0, st, 0, s.fs.cfg.attrTimeout, s.fs.cfg.entryTimeout⟩
  else doLookup host parent name

def forget (inode count : U64) : Step Unit :=
  modify fun s => { s with fs := { s.fs with inodes := forgetOne s.fs.inodes inode count } }

def batchForget (requests : List (U64 × U64)) : Step Unit :=
  modify fun s => { s with fs := { s.fs with
    inodes := requests.foldl (fun inodes q => forgetOne inodes q.1 q.2) s.fs.inodes } }

def opendir (inode : U64) (flags : U32) : Step (Option U64 × U32) :=
  doOpen host inode (flags ||| oDirectory)

def mkdir (ctx : Context) (parent : U64) (name : CStr) (mode umask : U32)
    (extensions : Extensions) : Step Entry :=
  if extensions.secctx.isSome then panic
  else withCreds host ctx.uid ctx.gid do
    let data ← getInode parent
    sysFor (some ctx) host.unit (.mkdirat data.file name (mode &&& ~~~ umask))
    doLookup host parent name

def readdir (inode handle : U64) (size : U32) (offset : U64)
    (addEntry : DirEntry → Prog K IoErr ℕ) : Prog (Served × K) IoErr Unit :=
  doReaddir host inode handle size offset fun d => onEntries (addEntry d)

def readdirplus (inode handle : U64) (size : U32) (offset : U64)
    (addEntry : DirEntry → Entry → Prog K IoErr ℕ) : Prog (Served × K) IoErr Unit :=
  doReaddir host inode handle size offset fun d => do
    let entry ← onFs (doLookup host inode d.name)
    onEntries (addEntry d entry)

def openFile (inode : U64) (flags : U32) : Step (Option U64 × U32) := do
  let s ← get
  if inode = s.fs.initInode then pure (some s.fs.initHandle, 0) else doOpen host inode flags

def create (ctx : Context) (parent : U64) (name : CStr) (mode flags umask : U32)
    (extensions : Extensions) : Step (Entry × Option U64 × U32) :=
  if extensions.secctx.isSome then panic
  else withCreds host ctx.uid ctx.gid do
    let data ← getInode parent
    let file ← sysFor (some ctx) host.fd (.openat (some data.file) name
      (flags ||| oCreat ||| oCloexec ||| oNofollow) (mode &&& ~~~ (umask &&& 0o777)))
    let entry ← doLookup host parent name
    let handle ← insertHandle entry.inode file
    let s ← get
    let opts := match s.fs.cfg.cachePolicy with
      | .never => OpenOptions.directIo
      | .always => OpenOptions.keepCache
      | .auto => 0
    pure (entry, some handle, opts)

/-- The range of `init.krun` that is read is computed before it is checked: a slice that begins
behind the end panics. -/
def read [GuestMemory M] (inode handle : U64) (w : Writer) (size : U32) (offset : U64) :
    Prog (Served × M) IoErr ℕ := fun p =>
  let off := offset.toNat
  if inode = p.1.fs.initInode then
    if host.initBinary.length < off then none
    else
      let len := if off + size.toNat < host.initBinary.length then size.toNat
        else host.initBinary.length - off
      let (e, res, _) := w.write p.2 ((host.initBinary.drop off).take len)
      some (res.mapError .kind, (p.1, e.mem))
  else
    match getHandle inode handle p.1 with
    | some (.ok data, _) =>
      let n := p.1.thread.log.length
      let bufs := DescriptorChainConsumer.takeBuffers size.toNat 0 w.buffer.buffers
      let (e, res, _) := w.writeFrom p.2 (preadv host offset n) size.toNat
      some (res.mapError (transferError host offset n),
        (recordTransfer bufs none (.preadv data.file bufs offset) res.isOk p.1, e.mem))
    | _ => some (.error (.os .ebadf), p)

/-- The guards of a write that is to drop privileges live in a block of their own, which ends before
the write. -/
def write (ctx : Context) (inode handle : U64) (r : Reader) (size : U32) (offset : U64)
    (killPriv : Bool) : Step ℕ := do
  when killPriv (withCreds host ctx.uid ctx.gid (pure ()))
  let data ← getHandle inode handle
  fun s =>
    let n := s.thread.log.length
    let bufs := DescriptorChainConsumer.takeBuffers size.toNat 0 r.buffer.buffers
    let (_, res, _) := r.readTo (pwritev host offset n) size.toNat
    some (res.mapError (transferError host offset n),
      recordTransfer bufs (if killPriv then some ctx else none) (.pwritev data.file bufs offset)
        res.isOk s)

/-- An open file, or the path of a descriptor below `/proc/self/fd`. -/
inductive AttrTarget
  | handle (fd : Fd)
  | procPath (path : CStr)

/-- A `timespec` of `setattr`. -/
def attrTime (valid now set : U32) (sec nsec : U64) : Timespec :=
  if valid &&& now ≠ 0 then (0, utimeNow)
  else if valid &&& set ≠ 0 then (sec, nsec)
  else (0, utimeOmit)

def setattr (inode : U64) (attr : Stat) (handle : Option U64) (valid : U32) :
    Step (Stat × Duration) := do
  let inodeData ← getInode inode
  let s ← get
  let target ← (match handle with
    | some handle => do
      let hd ← getHandle inode handle
      pure (AttrTarget.handle hd.file)
    | none => pure (AttrTarget.procPath (decimal inodeData.file)) : Step AttrTarget)
  when (valid &&& fattrMode ≠ 0) (sys host.unit (match target with
    | .handle fd => .fchmod fd attr.mode
    | .procPath path => .fchmodat s.fs.procSelfFd path attr.mode))
  when (valid &&& (fattrUid ||| fattrGid) ≠ 0) (sys host.unit (.fchownat inodeData.file
    (if valid &&& fattrUid ≠ 0 then attr.uid else 0xffffffff)
    (if valid &&& fattrGid ≠ 0 then attr.gid else 0xffffffff)))
  when (valid &&& fattrSize ≠ 0) (do
    let fd ← (match target with
      | .handle fd => pure fd
      | .procPath _ => openInode host inode (oNonblock ||| oRdwr) : Step Fd)
    sys host.unit (.ftruncate fd attr.size))
  let atime := attrTime valid fattrAtimeNow fattrAtime attr.atime attr.atimeNsec
  let mtime := attrTime valid fattrMtimeNow fattrMtime attr.mtime attr.mtimeNsec
  when (valid &&& (fattrAtime ||| fattrMtime) ≠ 0) (sys host.unit (match target with
    | .handle fd => .futimens fd atime mtime
    | .procPath path => .utimensat s.fs.procSelfFd path atime mtime))
  doGetattr host inode

def rename (olddir : U64) (oldname : CStr) (newdir : U64) (newname : CStr) (flags : U32) :
    Step Unit := do
  let oldInode ← getInode olddir
  let newInode ← getInode newdir
  sys host.unit (.renameat2 oldInode.file oldname newInode.file newname flags)

def mknod (ctx : Context) (parent : U64) (name : CStr) (mode rdev umask : U32)
    (extensions : Extensions) : Step Entry :=
  if extensions.secctx.isSome then panic
  else withCreds host ctx.uid ctx.gid do
    let data ← getInode parent
    sysFor (some ctx) host.unit
      (.mknodat data.file name (mode &&& ~~~ umask) (rdev.setWidth 64))
    doLookup host parent name

def link (inode newparent : U64) (newname : CStr) : Step Entry := do
  let data ← getInode inode
  let newInode ← getInode newparent
  let s ← get
  sys host.unit (.linkat s.fs.procSelfFd (decimal data.file) newInode.file newname atSymlinkFollow)
  doLookup host newparent newname

def symlink (ctx : Context) (linkname : CStr) (parent : U64) (name : CStr)
    (extensions : Extensions) : Step Entry :=
  if extensions.secctx.isSome then panic
  else withCreds host ctx.uid ctx.gid do
    let data ← getInode parent
    sysFor (some ctx) host.unit (.symlinkat linkname data.file name)
    doLookup host parent name

def readlink (inode : U64) : Step (List Byte) := do
  let data ← getInode inode
  let target ← sys host.bytes (.readlinkat data.file pathMax)
  pure (target.take pathMax)

def flush (inode handle : U64) : Step Unit := do
  let data ← getHandle inode handle
  let newfd ← sys host.fd (.dup data.file)
  sys host.closed (.close newfd)

def fsync (inode : U64) (datasync : Bool) (handle : U64) : Step Unit := do
  let data ← getHandle inode handle
  sys host.unit (if datasync then .fdatasync data.file else .fsync data.file)

/-- The permission bits of `access` for one kind of access: none of the classes that the requester
belongs to has the bit. -/
def denied (ctx : Context) (st : Stat) (bit : U32) : Bool :=
  (st.uid ≠ ctx.uid ∨ st.mode &&& (bit <<< 6) = 0) ∧
    (st.gid ≠ ctx.gid ∨ st.mode &&& (bit <<< 3) = 0) ∧ st.mode &&& bit = 0

def access (ctx : Context) (inode : U64) (mask : U32) : Step Unit := do
  let data ← getInode inode
  let st ← stat host data.file
  if mask &&& 4 ≠ 0 ∧ ctx.uid ≠ 0 ∧ denied ctx st 4 then fail (.os .eacces)
  else if mask &&& 2 ≠ 0 ∧ ctx.uid ≠ 0 ∧ denied ctx st 2 then fail (.os .eacces)
  -- root may execute what somebody may execute
  else if mask &&& 1 ≠ 0 ∧ (ctx.uid ≠ 0 ∨ st.mode &&& 0o111 = 0) ∧ denied ctx st 1 then
    fail (.os .eacces)
  else pure ()

def setxattr (inode : U64) (name : CStr) (value : List Byte) (flags : U32) : Step Unit := do
  let s ← get
  if s.fs.cfg.xattr = false then fail (.os .enosys)
  else do
    let file ← openInode host inode oNonblock
    sys host.unit (.fsetxattr file name value flags)

/-- The kernel returns the length for an empty buffer, and otherwise the value or `ERANGE`. -/
def xattrAnswer (size : U32) (n : ℕ) : Except Errno XattrReply :=
  match host.bytes n with
  | .error e => .error e
  | .ok value =>
    if size = 0 then .ok (.count (BitVec.ofNat 32 value.length))
    else if size.toNat < value.length then .error .erange
    else .ok (.value value)

def getxattr (inode : U64) (name : CStr) (size : U32) : Step XattrReply := do
  let s ← get
  if s.fs.cfg.xattr = false then fail (.os .enosys)
  else if inode = s.fs.initInode then fail (.os .enodata)
  else do
    let file ← openInode host inode oNonblock
    sys (xattrAnswer host size) (.fgetxattr file name size)

def listxattr (inode : U64) (size : U32) : Step XattrReply := do
  let s ← get
  if s.fs.cfg.xattr = false then fail (.os .enosys)
  else do
    let file ← openInode host inode oNonblock
    sys (xattrAnswer host size) (.flistxattr file size)

def removexattr (inode : U64) (name : CStr) : Step Unit := do
  let s ← get
  if s.fs.cfg.xattr = false then fail (.os .enosys)
  else do
    let file ← openInode host inode oNonblock
    sys host.unit (.fremovexattr file name)

def fallocate (inode handle : U64) (mode : U32) (offset length : U64) : Step Unit := do
  let data ← getHandle inode handle
  sys host.unit (.fallocate data.file mode offset length)

def lseek (inode handle offset : U64) (whence : U32) : Step U64 := do
  let data ← getHandle inode handle
  let res ← sys host.count (.lseek data.file offset whence)
  pure (BitVec.ofNat 64 res)

/-- `flags.try_into().unwrap()` panics for flags that do not fit in 32 bits. -/
def copyfilerange (inodeIn : U64) (req : CopyfilerangeIn) : Step ℕ := do
  let dataIn ← getHandle inodeIn req.fhIn
  let dataOut ← getHandle req.nodeidOut req.fhOut
  if 2 ^ 32 ≤ req.flags.toNat then panic
  else sys host.count (.copyFileRange dataIn.file req.offIn dataOut.file req.offOut req.len
    (req.flags.setWidth 32))

def protRead : U32 := 1
def protWrite : U32 := 2
def mapShared : U32 := 1
def mapPrivate : U32 := 2
def mapFixed : U32 := 0x10
def mapAnonymous : U32 := 0x20

def setupmapping (inode : U64) (req : SetupmappingIn) (hostShmBase shmSize : U64) : Step Unit := do
  let writable := req.flags &&& 1 ≠ 0
  if shmSize < req.moffset + req.len then fail (.os .einval)
  else do
    let s ← get
    let addr := hostShmBase + req.moffset
    if inode = s.fs.initInode then
      mmap host addr req.len (protRead ||| protWrite) (mapPrivate ||| mapAnonymous ||| mapFixed)
        none 0
    else do
      let fd ← openInode host inode (if writable then oRdwr else 0)
      mmap host addr req.len (if writable then protRead ||| protWrite else protRead)
        (mapShared ||| mapFixed) (some fd) req.foffset
      sys host.closed (.close fd)

def removemapping (hostShmBase shmSize : U64) : List RemovemappingOne → Step Unit
  | [] => pure ()
  | req :: requests =>
    if shmSize < req.moffset + req.len then fail (.os .einval)
    else do
      mmap host (hostShmBase + req.moffset) req.len 0 (mapAnonymous ||| mapPrivate ||| mapFixed)
        none 0
      removemapping hostShmBase shmSize requests

/-- The calls of the trait. Those that the file system does not implement have the default of the
trait, an error. -/
def call {A : Type} : FsCall A → Step A
  | .init capable => init host capable
  | .destroy => destroy
  | .lookup _ parent name => lookup host parent name
  | .forget _ inode count => forget inode count
  | .batchForget _ requests => batchForget requests
  | .getattr _ inode _ => doGetattr host inode
  | .setattr _ inode attr handle valid => setattr host inode attr handle valid
  | .readlink _ inode => readlink host inode
  | .symlink ctx linkname parent name extensions =>
    symlink host ctx linkname parent name extensions
  | .mknod ctx parent name mode rdev umask extensions =>
    mknod host ctx parent name mode rdev umask extensions
  | .mkdir ctx parent name mode umask extensions =>
    mkdir host ctx parent name mode umask extensions
  | .unlink _ parent name => doUnlink host parent name 0
  | .rmdir _ parent name => doUnlink host parent name atRemovedir
  | .rename _ olddir oldname newdir newname flags =>
    rename host olddir oldname newdir newname flags
  | .link _ inode newparent newname => link host inode newparent newname
  | .open _ inode flags => openFile host inode flags
  | .create ctx parent name mode flags umask extensions =>
    create host ctx parent name mode flags umask extensions
  | .write ctx inode handle r size offset _ _ killPriv _ =>
    write host ctx inode handle r size offset killPriv
  | .statfs _ inode => statfs host inode
  | .release _ inode _ handle _ _ _ => doRelease inode handle
  | .fsync _ inode datasync handle => fsync host inode datasync handle
  | .setxattr _ inode name value flags => setxattr host inode name value flags
  | .getxattr _ inode name size => getxattr host inode name size
  | .listxattr _ inode size => listxattr host inode size
  | .removexattr _ inode name => removexattr host inode name
  | .flush _ inode handle _ => flush host inode handle
  | .opendir _ inode flags => opendir host inode flags
  | .releasedir _ inode _ handle => doRelease inode handle
  | .fsyncdir _ inode datasync handle => fsync host inode datasync handle
  | .getlk => fail (.os .enosys)
  | .setlk => fail (.os .enosys)
  | .setlkw => fail (.os .enosys)
  | .access ctx inode mask => access host ctx inode mask
  | .bmap => fail (.os .enosys)
  | .ioctl .. => fail (.os .enosys)
  | .poll => fail (.os .enosys)
  | .notifyReply => fail (.os .enosys)
  | .fallocate _ inode handle mode offset length =>
    fallocate host inode handle mode offset length
  | .lseek _ inode handle offset whence => lseek host inode handle offset whence
  | .copyfilerange _ inodeIn req => copyfilerange host inodeIn req
  | .setupmapping _ inode req hostShmBase shmSize =>
    setupmapping host inode req hostShmBase shmSize
  | .removemapping _ requests hostShmBase shmSize =>
    removemapping host hostShmBase shmSize requests

end Calls

def fileSystem (M : Type) [GuestMemory M] (host : Host) : FileSystem M Served where
  call := call host
  read _ inode handle w size offset _ _ := read host inode handle w size offset
  readdir _ inode handle size offset addEntry := readdir host inode handle size offset addEntry
  readdirplus _ inode handle size offset addEntry :=
    readdirplus host inode handle size offset addEntry

end Passthrough

end Shelter.Fs
