import Shelter.Fs.Fuse
import Shelter.Lib.Prog
import Shelter.Virtio.DescriptorUtils

/-!
# The calls of a file system

The server is generic in the file system it serves. `FsCall` lists the methods of the trait, each
with the type of its result; a file system says what each call does to its state. The two calls that
move bytes between the guest and the host without a buffer stand apart: `read` gets the writer it
fills, and `readdir` the function that packs an entry.
-/

open Bytes

namespace Shelter.Fs

open Virtio

abbrev CStr := List Byte

abbrev Errno := U32

namespace Errno

def eio : Errno := 5
def ebadf : Errno := 9
def enomem : Errno := 12
def eacces : Errno := 13
def einval : Errno := 22
def erange : Errno := 34
def enosys : Errno := 38
def enodata : Errno := 61
def eproto : Errno := 71
def eoverflow : Errno := 75

end Errno

/-- `io::Error`: from the operating system, or one of the kinds. -/
inductive IoErr
  | os (code : Errno)
  | kind (k : IoError)
  deriving DecidableEq, Repr

def IoErr.rawOsError : IoErr → Option Errno
  | os code => some code
  | kind _ => none

structure Context where
  uid : U32
  gid : U32
  pid : U32
  deriving DecidableEq, Repr

/-- `From<InHeader> for Context`. -/
def InHeader.context (h : InHeader) : Context := ⟨h.uid, h.gid, h.pid⟩

structure SecContext where
  name : CStr
  secctx : List Byte
  deriving DecidableEq, Repr

structure Extensions where
  secctx : Option SecContext
  deriving DecidableEq, Repr

/-- `GetxattrReply`, and `ListxattrReply`. -/
inductive XattrReply
  | value (bs : List Byte)
  | count (n : U32)
  deriving DecidableEq, Repr

/-- The methods of the trait, with their results. -/
inductive FsCall : Type → Type
  | init (capable : U64) : FsCall U64
  | destroy : FsCall Unit
  | lookup (ctx : Context) (parent : U64) (name : CStr) : FsCall Entry
  | forget (ctx : Context) (inode count : U64) : FsCall Unit
  | batchForget (ctx : Context) (requests : List (U64 × U64)) : FsCall Unit
  | getattr (ctx : Context) (inode : U64) (handle : Option U64) : FsCall (Stat × Duration)
  | setattr (ctx : Context) (inode : U64) (attr : Stat) (handle : Option U64) (valid : U32) :
      FsCall (Stat × Duration)
  | readlink (ctx : Context) (inode : U64) : FsCall (List Byte)
  | symlink (ctx : Context) (linkname : CStr) (parent : U64) (name : CStr)
      (extensions : Extensions) : FsCall Entry
  | mknod (ctx : Context) (parent : U64) (name : CStr) (mode rdev umask : U32)
      (extensions : Extensions) : FsCall Entry
  | mkdir (ctx : Context) (parent : U64) (name : CStr) (mode umask : U32)
      (extensions : Extensions) : FsCall Entry
  | unlink (ctx : Context) (parent : U64) (name : CStr) : FsCall Unit
  | rmdir (ctx : Context) (parent : U64) (name : CStr) : FsCall Unit
  | rename (ctx : Context) (olddir : U64) (oldname : CStr) (newdir : U64) (newname : CStr)
      (flags : U32) : FsCall Unit
  | link (ctx : Context) (inode newparent : U64) (newname : CStr) : FsCall Entry
  | open (ctx : Context) (inode : U64) (flags : U32) : FsCall (Option U64 × U32)
  | create (ctx : Context) (parent : U64) (name : CStr) (mode flags umask : U32)
      (extensions : Extensions) : FsCall (Entry × Option U64 × U32)
  | write (ctx : Context) (inode handle : U64) (r : Reader) (size : U32) (offset : U64)
      (lockOwner : Option U64) (delayedWrite killPriv : Bool) (flags : U32) : FsCall ℕ
  | statfs (ctx : Context) (inode : U64) : FsCall Statvfs
  | release (ctx : Context) (inode : U64) (flags : U32) (handle : U64) (flush flockRelease : Bool)
      (lockOwner : Option U64) : FsCall Unit
  | fsync (ctx : Context) (inode : U64) (datasync : Bool) (handle : U64) : FsCall Unit
  | setxattr (ctx : Context) (inode : U64) (name : CStr) (value : List Byte) (flags : U32) :
      FsCall Unit
  | getxattr (ctx : Context) (inode : U64) (name : CStr) (size : U32) : FsCall XattrReply
  | listxattr (ctx : Context) (inode : U64) (size : U32) : FsCall XattrReply
  | removexattr (ctx : Context) (inode : U64) (name : CStr) : FsCall Unit
  | flush (ctx : Context) (inode handle lockOwner : U64) : FsCall Unit
  | opendir (ctx : Context) (inode : U64) (flags : U32) : FsCall (Option U64 × U32)
  | releasedir (ctx : Context) (inode : U64) (flags : U32) (handle : U64) : FsCall Unit
  | fsyncdir (ctx : Context) (inode : U64) (datasync : Bool) (handle : U64) : FsCall Unit
  | getlk : FsCall Unit
  | setlk : FsCall Unit
  | setlkw : FsCall Unit
  | access (ctx : Context) (inode : U64) (mask : U32) : FsCall Unit
  | bmap : FsCall Unit
  | ioctl (ctx : Context) (inode handle : U64) (flags cmd : U32) (arg : U64)
      (inSize outSize : U32) : FsCall (List Byte)
  | poll : FsCall Unit
  | notifyReply : FsCall Unit
  | fallocate (ctx : Context) (inode handle : U64) (mode : U32) (offset length : U64) :
      FsCall Unit
  | lseek (ctx : Context) (inode handle offset : U64) (whence : U32) : FsCall U64
  | copyfilerange (ctx : Context) (inodeIn : U64) (req : CopyfilerangeIn) : FsCall ℕ
  | setupmapping (ctx : Context) (inode : U64) (req : SetupmappingIn) (hostShmBase shmSize : U64) :
      FsCall Unit
  | removemapping (ctx : Context) (requests : List RemovemappingOne) (hostShmBase shmSize : U64) :
      FsCall Unit

/-- A file system with states `F`, for guests with memories `M`. -/
structure FileSystem (M F : Type) where
  call : {A : Type} → FsCall A → Prog F IoErr A
  read : (ctx : Context) → (inode handle : U64) → (w : Writer) → (size : U32) → (offset : U64) →
    (lockOwner : Option U64) → (flags : U32) → Prog (F × M) IoErr ℕ
  readdir : {K : Type} → (ctx : Context) → (inode handle : U64) → (size : U32) → (offset : U64) →
    (addEntry : DirEntry → Prog K IoErr ℕ) → Prog (F × K) IoErr Unit
  readdirplus : {K : Type} → (ctx : Context) → (inode handle : U64) → (size : U32) →
    (offset : U64) → (addEntry : DirEntry → Entry → Prog K IoErr ℕ) → Prog (F × K) IoErr Unit

end Shelter.Fs
