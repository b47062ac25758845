import Shelter.Fs.FileSystem

/-!
# The FUSE server

`handleMessage` decodes a request, calls the file system and writes the reply. Every request other
than `READ`, `READDIR` and `READDIRPLUS` ends in `reply_ok`, in `reply_error` or without a reply;
its handler returns which of them (`Answer`), and `respond` is the end they share. The other three
write their header after their data, through a writer that was split in two.

The state carries, for the specification only, what the guest was told about inodes and what it gave
back (`Action`).
-/

open Bytes

namespace Shelter.Fs

open Virtio Prog FsOptions

def maxBufferSize : U32 := 1 <<< 20
def bufferHeaderSize : U32 := 0x1000

inductive FsError
  | decodeMessage
  | encodeMessage
  | missingExtension
  | missingParameter
  | invalidCString
  | invalidCString2
  | invalidHeaderLength
  | invalidXattrSize (size : U32) (len : ℕ)
  deriving DecidableEq, Repr

/-- What counts for the lookup count of an inode. -/
inductive Action
  /-- an entry for the inode stands in a reply that was written -/
  | reported (inode : U64)
  | forgot (inode count : U64)
  deriving DecidableEq, Repr

/-- The server with the file system it serves, and the memory of the guest. -/
structure ServerState (M F : Type) where
  fs : F
  options : U64
  mem : M
  actions : List Action

/-- The part of guest memory that is mapped from files. -/
structure VirtioShmRegion where
  hostAddr : U64
  size : U64
  deriving DecidableEq, Repr

/-- How a handler wants its request to be answered. -/
inductive Answer
  | ok (out : Option Out) (data : Option (List Byte))
  | err (e : IoErr)
  | silent
  deriving DecidableEq, Repr

namespace Server

variable {M F A : Type} [GuestMemory M]

abbrev Step (M F A : Type) := Prog (ServerState M F) FsError A

def record (actions : List Action) : Step M F Unit :=
  modify fun s => { s with actions := s.actions ++ actions }

/-! ## Reading and writing messages -/

/-- `read_obj` of a type of `n` bytes, and `read_exact`. -/
def readObj (r : Reader) (n : ℕ) : Step M F (List Byte × Reader) := fun s =>
  match r.readObj s.mem n with
  | (e, .ok (), r') => some (.ok (e.data, r'), s)
  | (_, .error _, _) => some (.error .decodeMessage, s)

def writeAll (w : Writer) (bs : List Byte) : Step M F Writer := fun s =>
  match w.writeAll s.mem bs with
  | (e, .ok (), w') => some (.ok w', { s with mem := e.mem })
  | (e, .error _, _) => some (.error .encodeMessage, { s with mem := e.mem })

def replyOk (out : Option Out) (data : Option (List Byte)) (unique : U64) (w : Writer) :
    Step M F ℕ := do
  let body := (out.map Out.toBytes).getD []
  let len := OutHeader.size + body.length + (data.getD []).length
  let w ← writeAll w (OutHeader.toBytes ⟨BitVec.ofNat 32 len, 0, unique⟩)
  let w ← writeAll w body
  let w ← writeAll w (data.getD [])
  pure w.bytesWritten

def replyError (e : IoErr) (unique : U64) (w : Writer) : Step M F ℕ := do
  let w ← writeAll w (OutHeader.toBytes ⟨16, -(e.rawOsError.getD .eio), unique⟩)
  pure w.bytesWritten

/-- The end of the handlers. The entries of a reply count when it is written. -/
def respond (unique : U64) (w : Writer) : Answer → Step M F ℕ
  | .ok out data => do
    let n ← replyOk out data unique w
    record ((out.map Out.entries).getD [] |>.map .reported)
    pure n
  | .err e => replyError e unique w
  | .silent => pure 0

/-- The length of the message after its header and a structure of `n` bytes. -/
def remaining (h : InHeader) (n : ℕ) : Step M F ℕ :=
  if InHeader.size + n ≤ h.len.toNat then pure (h.len.toNat - InHeader.size - n)
  else fail .invalidHeaderLength

variable (buf : List Byte)

/-- `CStr::from_bytes_with_nul`: the only zero byte is the last one. -/
def bytesToCstr : Step M F CStr :=
  if buf.idxOf 0 + 1 = buf.length then pure buf.dropLast else fail .invalidCString

/-- The next component of `split_inclusive` at zero bytes, and what follows it. -/
def component : Step M F (List Byte × List Byte) :=
  if buf = [] then fail .missingParameter else pure (buf.splitAt (buf.idxOf 0 + 1))

/-- The bytes through the first zero byte, and what follows it. -/
def splitAtNul : Step M F (List Byte × List Byte) :=
  if 0 ∈ buf then pure (buf.splitAt (buf.idxOf 0 + 1)) else fail .missingParameter

/-- `n` objects of `size` bytes, one after the other. -/
def readObjs (size : ℕ) : ℕ → Reader → Step M F (List (List Byte))
  | 0, _ => pure []
  | n + 1, r => do
    let (obj, r) ← readObj r size
    let objs ← readObjs size n r
    pure (obj :: objs)

/-! ## Extensions of requests that create a file -/

def takeObject (n : ℕ) (data : List Byte) : Step M F (List Byte × List Byte) :=
  if data.length < n then fail .decodeMessage else pure (data.splitAt n)

def parseSecurityContext (nrSecctx : U32) (data : List Byte) : Step M F (Option SecContext) :=
  if 1 < nrSecctx then fail .decodeMessage
  else if nrSecctx = 0 then pure none
  else do
    let (secctx, data) ← takeObject 8 data
    let size := word 32 secctx 0
    if size = 0 then fail .decodeMessage
    else do
      let (name, data) ← component data
      if data.length < size.toNat then fail .decodeMessage
      else if name.idxOf 0 + 1 ≠ name.length then fail .invalidCString2
      else pure (some ⟨name.dropLast, data.take size.toNat⟩)

/-- The loop of `get_extensions`: the security context, and whether one was received. A turn takes
8 bytes or more, so that as many turns as bytes are enough. -/
def extensionsLoop (options : U64) :
    ℕ → List Byte → Option SecContext × Bool → Step M F (Option SecContext × Bool)
  | 0, _, found => pure found
  | turns + 1, buf, found =>
    if buf = [] then pure found
    else do
      let (header, rest) ← takeObject 8 buf
      let size := (word 32 header 0).toNat
      let extType := word 32 header 4
      if size < 8 then fail .invalidHeaderLength
      -- `split_at` panics
      else if rest.length < size - 8 then panic
      else if extType ≤ 31 then
        if has options securityCtx = false ∨ found.2 = true then
          fail .decodeMessage
        else do
          let secctx ← parseSecurityContext extType (rest.take (size - 8))
          extensionsLoop options turns (rest.drop (size - 8)) (secctx, true)
      -- `unimplemented!`
      else if extType = 32 then panic
      else fail .decodeMessage

def getExtensions (options : U64) (skip : ℕ) (requestBytes : List Byte) : Step M F Extensions :=
  if has options securityCtx = false ∧
      has options createSuppGroup = false then
    pure ⟨none⟩
  else if requestBytes.length < skip then fail .decodeMessage
  else do
    let found ← extensionsLoop options requestBytes.length (requestBytes.drop skip) (none, false)
    if has options securityCtx = true ∧ found.2 = false then
      fail .missingExtension
    else pure ⟨found.1⟩

/-! ## The handlers -/

variable (fs : FileSystem M F)

def callFs (c : FsCall A) : Step M F (Except IoErr A) := fun s =>
  (fs.call c s.fs).map fun out => (.ok out.1, { s with fs := out.2 })

/-- The `match` on the result of a call that ends the handlers. -/
def answer (c : FsCall A) (reply : A → Answer) : Step M F Answer := do
  match ← callFs fs c with
  | .ok a => pure (reply a)
  | .error e => pure (.err e)

/-- `reply_ok(None, None)`. -/
def okEmpty : Unit → Answer := fun _ => .ok none none

def okEntry (entry : Entry) : Answer := .ok (some (.entry entry entry.attrFlags)) none

def okAttr (out : Stat × Duration) : Answer := .ok (some (.attr out.1 out.2)) none

def okOpen (out : Option U64 × U32) : Answer := .ok (some (.opened (out.1.getD 0) out.2)) none

def okXattr : XattrReply → Answer
  | .value bs => .ok none (some bs)
  | .count n => .ok (some (.xattrSize n)) none

/-- The reply to `GETLK` and its like, which no file system here supports. -/
def okSilent : Unit → Answer := fun _ => .silent

def enomem : Answer := .err (.os .enomem)

section Handlers

variable (fs : FileSystem M F) (h : InHeader) (r : Reader)

def lookup : Step M F Answer := do
  let namelen ← remaining h 0
  let (buf, _) ← readObj r namelen
  let name ← bytesToCstr buf
  answer fs (.lookup h.context h.nodeid name) okEntry

def forget : Step M F Answer := do
  let (buf, _) ← readObj r 8
  let nlookup := word 64 buf 0
  let _ ← callFs fs (.forget h.context h.nodeid nlookup)
  record [.forgot h.nodeid nlookup]
  pure .silent

def getattr : Step M F Answer := do
  let (buf, _) ← readObj r 16
  let handle := if word 32 buf 0 &&& getattrFh ≠ 0 then some (word 64 buf 8) else none
  answer fs (.getattr h.context h.nodeid handle) okAttr

def setattr : Step M F Answer := do
  let (buf, _) ← readObj r 88
  let setattrIn := SetattrIn.ofBytes buf
  let handle := if setattrIn.valid &&& fattrFh ≠ 0 then some setattrIn.fh else none
  answer fs (.setattr h.context h.nodeid (.ofSetattrIn setattrIn) handle setattrIn.valid) okAttr

def readlink : Step M F Answer :=
  answer fs (.readlink h.context h.nodeid) fun linkname => .ok none (some linkname)

def symlink : Step M F Answer := do
  let len ← remaining h 0
  let (buf, _) ← readObj r len
  let (name, rest) ← component buf
  let (linkname, _) ← component rest
  let s ← get
  let extensions ← getExtensions s.options (name.length + linkname.length) buf
  let linkname ← bytesToCstr linkname
  let name ← bytesToCstr name
  answer fs (.symlink h.context linkname h.nodeid name extensions) okEntry

def mknod : Step M F Answer := do
  let (obj, r) ← readObj r 16
  let len ← remaining h 16
  let (buf, _) ← readObj r len
  let (name, _) ← component buf
  let s ← get
  let extensions ← getExtensions s.options name.length buf
  let name ← bytesToCstr name
  answer fs (.mknod h.context h.nodeid name (word 32 obj 0) (word 32 obj 4) (word 32 obj 8)
    extensions) okEntry

def mkdir : Step M F Answer := do
  let (obj, r) ← readObj r 8
  let len ← remaining h 8
  let (buf, _) ← readObj r len
  let (name, _) ← component buf
  let s ← get
  let extensions ← getExtensions s.options name.length buf
  let name ← bytesToCstr name
  answer fs (.mkdir h.context h.nodeid name (word 32 obj 0) (word 32 obj 4) extensions) okEntry

def unlink : Step M F Answer := do
  let namelen ← remaining h 0
  let (buf, _) ← readObj r namelen
  let name ← bytesToCstr buf
  answer fs (.unlink h.context h.nodeid name) okEmpty

def rmdir : Step M F Answer := do
  let namelen ← remaining h 0
  let (buf, _) ← readObj r namelen
  let name ← bytesToCstr buf
  answer fs (.rmdir h.context h.nodeid name) okEmpty

def doRename (msgSize : ℕ) (newdir : U64) (flags : U32) : Step M F Answer := do
  let buflen ← remaining h msgSize
  let (buf, _) ← readObj r buflen
  let (oldname, newname) ← splitAtNul buf
  let oldname ← bytesToCstr oldname
  let newname ← bytesToCstr newname
  answer fs (.rename h.context h.nodeid oldname newdir newname flags) okEmpty

def rename : Step M F Answer := do
  let (obj, r) ← readObj r 8
  doRename fs h r 8 (word 64 obj 0) 0

/-- Of the flags, `RENAME_NOREPLACE` and `RENAME_EXCHANGE` are kept. -/
def rename2 : Step M F Answer := do
  let (obj, r) ← readObj r 16
  doRename fs h r 16 (word 64 obj 0) (word 32 obj 8 &&& 3)

def link : Step M F Answer := do
  let (obj, r) ← readObj r 8
  let namelen ← remaining h 8
  let (buf, _) ← readObj r namelen
  let name ← bytesToCstr buf
  answer fs (.link h.context (word 64 obj 0) h.nodeid name) okEntry

def openFile : Step M F Answer := do
  let (obj, _) ← readObj r 8
  answer fs (.open h.context h.nodeid (word 32 obj 0)) okOpen

def write : Step M F Answer := do
  let (obj, r) ← readObj r 40
  let writeIn := TransferIn.ofBytes obj
  if maxBufferSize < writeIn.size then pure enomem
  else do
    let owner :=
      if writeIn.transferFlags &&& writeLockowner ≠ 0 then some writeIn.lockOwner else none
    let delayedWrite := writeIn.transferFlags &&& writeCache ≠ 0
    let killPriv := writeIn.transferFlags &&& writeKillPriv ≠ 0
    answer fs (.write h.context h.nodeid writeIn.fh r writeIn.size writeIn.offset owner delayedWrite
      killPriv writeIn.flags) fun count => .ok (some (.written (BitVec.ofNat 32 count))) none

def statfs : Step M F Answer :=
  answer fs (.statfs h.context h.nodeid) fun st => .ok (some (.statfs st)) none

def release : Step M F Answer := do
  let (obj, _) ← readObj r 24
  let releaseFlags := word 32 obj 12
  let flush := releaseFlags &&& releaseFlush ≠ 0
  let flockRelease := releaseFlags &&& releaseFlockUnlock ≠ 0
  let lockOwner := if flush ∨ flockRelease then some (word 64 obj 16) else none
  answer fs (.release h.context h.nodeid (word 32 obj 8) (word 64 obj 0) flush flockRelease
    lockOwner) okEmpty

def fsync : Step M F Answer := do
  let (obj, _) ← readObj r 16
  answer fs (.fsync h.context h.nodeid (word 32 obj 8 &&& 1 ≠ 0) (word 64 obj 0)) okEmpty

def setxattr : Step M F Answer := do
  let (obj, r) ← readObj r 8
  let size := word 32 obj 0
  let len ← remaining h 8
  let (buf, _) ← readObj r len
  let (name, value) ← splitAtNul buf
  if size ≠ BitVec.ofNat 32 value.length then fail (.invalidXattrSize size value.length)
  else do
    let name ← bytesToCstr name
    answer fs (.setxattr h.context h.nodeid name value (word 32 obj 4)) okEmpty

def getxattr : Step M F Answer := do
  let (obj, r) ← readObj r 8
  let size := word 32 obj 0
  let namelen ← remaining h 8
  let (buf, _) ← readObj r namelen
  if maxBufferSize < size then pure enomem
  else do
    let name ← bytesToCstr buf
    answer fs (.getxattr h.context h.nodeid name size) okXattr

def listxattr : Step M F Answer := do
  let (obj, _) ← readObj r 8
  let size := word 32 obj 0
  if maxBufferSize < size then pure enomem
  else answer fs (.listxattr h.context h.nodeid size) okXattr

def removexattr : Step M F Answer := do
  let namelen ← remaining h 0
  let (buf, _) ← readObj r namelen
  let name ← bytesToCstr buf
  answer fs (.removexattr h.context h.nodeid name) okEmpty

def flush : Step M F Answer := do
  let (obj, _) ← readObj r 24
  answer fs (.flush h.context h.nodeid (word 64 obj 0) (word 64 obj 16)) okEmpty

def supported : U64 :=
  asyncRead ||| parallelDirops ||| bigWrites |||
    autoInvalData ||| handleKillpriv ||| asyncDio |||
    hasIoctlDir ||| atomicOTrunc ||| maxPages |||
    submounts ||| initExt

def initOut (maxReadahead : U32) (enabled : U64) : Out :=
  .init maxReadahead (enabled.setWidth 32) 0xffff 0xbffd maxBufferSize 1 256
    ((enabled >>> 32).setWidth 32)

/-- The end of `init`: what both sides are capable of is enabled. -/
def enable (maxReadahead : U32) (capable : U64) : Step M F Answer := do
  match ← callFs fs (.init capable) with
  | .error e => pure (.err e)
  | .ok want => do
    let enabled := capable &&& (want ||| supported)
    modify fun s => { s with options := enabled }
    pure (.ok (some (initOut maxReadahead enabled)) none)

def init : Step M F Answer := do
  let (obj, r) ← readObj r 16
  let major := word 32 obj 0
  let minor := word 32 obj 4
  let maxReadahead := word 32 obj 8
  let flags := word 32 obj 12
  let options := ofBits (flags.setWidth 64)
  let (ext, _) ← (if has options initExt then readObj r 48
    else pure (List.replicate 48 0, r))
  let flags2 := word 32 ext 0
  let capable := ofBits (flags2.setWidth 64 <<< 32 ||| flags.setWidth 64)
  if major < kernelVersion then pure (.err (.os .eproto))
  else if kernelVersion < major then pure (.ok (some (.init 0 0 0 0 0 0 0 0)) none)
  else if minor < kernelMinorVersion then pure (.err (.os .eproto))
  else enable fs maxReadahead capable

def opendir : Step M F Answer := do
  let (obj, _) ← readObj r 8
  answer fs (.opendir h.context h.nodeid (word 32 obj 0)) okOpen

def releasedir : Step M F Answer := do
  let (obj, _) ← readObj r 24
  answer fs (.releasedir h.context h.nodeid (word 32 obj 8) (word 64 obj 0)) okEmpty

def fsyncdir : Step M F Answer := do
  let (obj, _) ← readObj r 16
  answer fs (.fsyncdir h.context h.nodeid (word 32 obj 8 &&& 1 ≠ 0) (word 64 obj 0)) okEmpty

def access : Step M F Answer := do
  let (obj, _) ← readObj r 8
  answer fs (.access h.context h.nodeid (word 32 obj 0)) okEmpty

def create : Step M F Answer := do
  let (obj, r) ← readObj r 16
  let namelen ← remaining h 16
  let (buf, _) ← readObj r namelen
  let (name, _) ← component buf
  let s ← get
  let extensions ← getExtensions s.options name.length buf
  let name ← bytesToCstr name
  answer fs (.create h.context h.nodeid name (word 32 obj 4) (word 32 obj 0) (word 32 obj 8)
    extensions) fun (entry, handle, opts) =>
      .ok (some (.entry entry 0)) (some (openOutBytes (handle.getD 0) opts))

def destroy : Step M F Answer := do
  let _ ← callFs fs .destroy
  pure .silent

def ioctl : Step M F Answer := do
  let (obj, _) ← readObj r 32
  answer fs (.ioctl h.context h.nodeid (word 64 obj 0) (word 32 obj 8) (word 32 obj 12)
    (word 64 obj 16) (word 32 obj 24) (word 32 obj 28)) fun data => .ok (some .ioctl) (some data)

def batchForget : Step M F Answer := do
  let (obj, r) ← readObj r 8
  let count := word 32 obj 0
  -- the product fits in a `usize`
  if maxBufferSize.toNat < count.toNat * 16 then pure enomem
  else do
    let objs ← readObjs 16 count.toNat r
    let requests := objs.map fun obj => (word 64 obj 0, word 64 obj 8)
    let _ ← callFs fs (.batchForget h.context requests)
    record (requests.map fun q => .forgot q.1 q.2)
    pure .silent

def fallocate : Step M F Answer := do
  let (obj, _) ← readObj r 32
  answer fs (.fallocate h.context h.nodeid (word 64 obj 0) (word 32 obj 24) (word 64 obj 8)
    (word 64 obj 16)) okEmpty

def lseek : Step M F Answer := do
  let (obj, _) ← readObj r 24
  answer fs (.lseek h.context h.nodeid (word 64 obj 0) (word 64 obj 8) (word 32 obj 16))
    fun offset => .ok (some (.lseek offset)) none

def copyfilerange : Step M F Answer := do
  let (obj, _) ← readObj r 56
  answer fs (.copyfilerange h.context h.nodeid (.ofBytes obj))
    fun count => .ok (some (.written (BitVec.ofNat 32 count))) none

def setupmapping (shm : VirtioShmRegion) : Step M F Answer := do
  let (obj, _) ← readObj r 40
  answer fs (.setupmapping h.context h.nodeid (.ofBytes obj) shm.hostAddr shm.size) okEmpty

def removemapping (shm : VirtioShmRegion) : Step M F Answer := do
  let (obj, r) ← readObj r 4
  let count := word 32 obj 0
  if maxBufferSize.toNat < count.toNat * 16 then pure enomem
  else do
    let objs ← readObjs 16 count.toNat r
    answer fs (.removemapping h.context (objs.map .ofBytes) shm.hostAddr shm.size) okEmpty

end Handlers

/-! ## The requests that write their data first -/

/-- The writer that is split off behind the header, with the memory it writes and the inodes of the
entries it wrote. -/
structure Cursor (M : Type) where
  w : Writer
  mem : M
  listed : List U64

/-- `write_all` at the cursor. -/
def Cursor.put (bs : List Byte) : Prog (Cursor M) IoErr Unit := fun c =>
  match c.w.writeAll c.mem bs with
  | (e, .ok (), w') => some (.ok (), { c with w := w', mem := e.mem })
  | (e, .error k, w') => some (.error (.kind k), { c with w := w', mem := e.mem })

/-- The length of an entry of `READDIR` and, with an `EntryOut`, of `READDIRPLUS`. -/
def direntLen (name : List Byte) (plus : Bool) : ℕ :=
  (24 + name.length + 7) / 8 * 8 + if plus then 128 else 0

def addDirent (max : U32) (d : DirEntry) (entry : Option Entry) : Prog (Cursor M) IoErr ℕ :=
  -- on 64 bits, no later sum can overflow
  if 2 ^ 32 ≤ d.name.length then fail (.os .eoverflow)
  else do
    let c ← get
    if max.toNat - c.w.bytesWritten < direntLen d.name entry.isSome then pure 0
    else do
      Cursor.put ((entry.map fun e => e.toBytes e.attrFlags).getD [])
      Cursor.put d.toBytes
      Cursor.put d.name
      Cursor.put (List.replicate (direntLen d.name false - (24 + d.name.length)) 0)
      modify fun c => { c with listed := c.listed ++ (entry.map Entry.inode).toList }
      pure (direntLen d.name entry.isSome)

/-- `split_at(size_of::<OutHeader>()).unwrap()`: the writer for the header, and the rest. -/
def splitHeader (w : Writer) : Step M F (Writer × Writer) :=
  match w.splitAt OutHeader.size with
  | .ok ws => pure ws
  | .error _ => panic

/-- The header that is written last, for `count` bytes behind it. -/
def finish (count : ℕ) (unique : U64) (w : Writer) : Step M F ℕ := do
  let len := BitVec.ofNat 32 (OutHeader.size + count)
  let _ ← writeAll w (OutHeader.toBytes ⟨len, 0, unique⟩)
  pure len.toNat

/-- `read` of the file system, which writes guest memory. -/
def callRead (x : Prog (F × M) IoErr ℕ) : Step M F (Except IoErr ℕ) := fun s =>
  (x (s.fs, s.mem)).map fun out => (.ok out.1, { s with fs := out.2.1, mem := out.2.2 })

/-- `readdir` of the file system, with a cursor. -/
def callReaddir (w : Writer) (x : Prog (F × Cursor M) IoErr Unit) :
    Step M F (Except IoErr Unit × Cursor M) := fun s =>
  (x (s.fs, ⟨w, s.mem, []⟩)).map fun out =>
    (.ok (out.1, out.2.2), { s with fs := out.2.1, mem := out.2.2.mem })

def read (h : InHeader) (r : Reader) (w : Writer) : Step M F ℕ := do
  let (obj, _) ← readObj r 40
  let readIn := TransferIn.ofBytes obj
  if maxBufferSize < readIn.size then replyError (.os .enomem) h.unique w
  else do
    let owner := if readIn.transferFlags &&& readLockowner ≠ 0 then some readIn.lockOwner else none
    let (w, dataWriter) ← splitHeader w
    match ← callRead (fs.read h.context h.nodeid readIn.fh dataWriter readIn.size readIn.offset
      owner readIn.flags) with
    | .ok count => finish count h.unique w
    | .error e => replyError e h.unique w

def doReaddir (h : InHeader) (r : Reader) (w : Writer) (plus : Bool) : Step M F ℕ := do
  let (obj, _) ← readObj r 40
  let readIn := TransferIn.ofBytes obj
  if maxBufferSize < readIn.size then replyError (.os .enomem) h.unique w
  else if w.availableBytes < readIn.size.toNat then replyError (.os .enomem) h.unique w
  else do
    let (w, cursor) ← splitHeader w
    let (res, cursor) ← callReaddir cursor
      (if plus then fs.readdirplus h.context h.nodeid readIn.fh readIn.size readIn.offset
          fun d e => addDirent readIn.size d (some e)
        else fs.readdir h.context h.nodeid readIn.fh readIn.size readIn.offset
          fun d => addDirent readIn.size d none)
    match res with
    | .error e => replyError e h.unique w
    | .ok () => do
      let n ← finish cursor.w.bytesWritten h.unique w
      record (cursor.listed.map .reported)
      pure n

/-! ## The dispatch -/

variable (shm : Option VirtioShmRegion)

/-- The handlers of the requests that are answered through `respond`. -/
def handler (h : InHeader) (r : Reader) : Opcode → Step M F Answer
  | .lookup => lookup fs h r
  | .forget => forget fs h r
  | .getattr => getattr fs h r
  | .setattr => setattr fs h r
  | .readlink => readlink fs h
  | .symlink => symlink fs h r
  | .mknod => mknod fs h r
  | .mkdir => mkdir fs h r
  | .unlink => unlink fs h r
  | .rmdir => rmdir fs h r
  | .rename => rename fs h r
  | .link => link fs h r
  | .open => openFile fs h r
  | .write => write fs h r
  | .statfs => statfs fs h
  | .release => release fs h r
  | .fsync => fsync fs h r
  | .setxattr => setxattr fs h r
  | .getxattr => getxattr fs h r
  | .listxattr => listxattr fs h r
  | .removexattr => removexattr fs h r
  | .flush => flush fs h r
  | .init => init fs r
  | .opendir => opendir fs h r
  | .releasedir => releasedir fs h r
  | .fsyncdir => fsyncdir fs h r
  | .getlk => answer fs .getlk okSilent
  | .setlk => answer fs .setlk okSilent
  | .setlkw => answer fs .setlkw okSilent
  | .access => access fs h r
  | .create => create fs h r
  | .interrupt => pure .silent
  | .bmap => answer fs .bmap okSilent
  | .destroy => destroy fs
  | .ioctl => ioctl fs h r
  | .poll => answer fs .poll okSilent
  | .notifyReply => answer fs .notifyReply okSilent
  | .batchForget => batchForget fs h r
  | .fallocate => fallocate fs h r
  | .rename2 => rename2 fs h r
  | .lseek => lseek fs h r
  | .copyFileRange => copyfilerange fs h r
  | .setupMapping =>
    match shm with
    | some shm => setupmapping fs h r shm
    | none => pure (.err (.os .enosys))
  | .removeMapping =>
    match shm with
    | some shm => removemapping fs h r shm
    | none => pure (.err (.os .enosys))
  -- these three have a dispatch of their own
  | .read | .readdir | .readdirplus => pure (.err (.os .enosys))

def dispatch (h : InHeader) (r : Reader) (w : Writer) : Step M F ℕ :=
  match Opcode.ofU32 h.opcode with
  | none => replyError (.os .enosys) h.unique w
  | some .read => read fs h r w
  | some .readdir => doReaddir fs h r w false
  | some .readdirplus => doReaddir fs h r w true
  | some opcode => do
    let a ← handler fs shm h r opcode
    respond h.unique w a

def handleMessage (r : Reader) (w : Writer) : Step M F ℕ := do
  let (obj, r) ← readObj r InHeader.size
  let h := InHeader.ofBytes obj
  if maxBufferSize + bufferHeaderSize < h.len then replyError (.os .enomem) h.unique w
  else dispatch fs shm h r w

end Server

end Shelter.Fs
