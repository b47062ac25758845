import Shelter.Fs.FileSystem

/-!
# The host of the file system

The file system forwards requests to the host through system calls. What the host answers is a
parameter: `Host` has an answer for every position in the sequence of the calls, so that a statement
for every `Host` is one for every outcome of every call. The calls that the worker thread has made
are kept in order, each with the credentials it was made with.
-/

open Bytes

namespace Shelter.Fs

open Virtio

abbrev Fd := ℕ

abbrev Timespec := U64 × U64

/-- The system calls of the file system, with their arguments; `none` for a directory is
`AT_FDCWD`, and for a file it is `-1`. -/
inductive SysCall
  | openat (dir : Option Fd) (path : CStr) (flags mode : U32)
  | fstatat (fd : Fd)
  | fstatvfs (fd : Fd)
  | umask (mask : U32)
  | mkdirat (dir : Fd) (name : CStr) (mode : U32)
  | mknodat (dir : Fd) (name : CStr) (mode : U32) (rdev : U64)
  | symlinkat (target : CStr) (dir : Fd) (name : CStr)
  | linkat (olddir : Fd) (oldpath : CStr) (newdir : Fd) (newpath : CStr) (flags : U32)
  | unlinkat (dir : Fd) (name : CStr) (flags : U32)
  | renameat2 (olddir : Fd) (oldname : CStr) (newdir : Fd) (newname : CStr) (flags : U32)
  | readlinkat (fd : Fd) (size : ℕ)
  | lseek (fd : Fd) (offset : U64) (whence : U32)
  | getdents64 (fd : Fd) (size : U32)
  | preadv (fd : Fd) (bufs : List VolatileSlice) (offset : U64)
  | pwritev (fd : Fd) (bufs : List VolatileSlice) (offset : U64)
  | fchmod (fd : Fd) (mode : U32)
  | fchmodat (dir : Fd) (path : CStr) (mode : U32)
  | fchownat (fd : Fd) (uid gid : U32)
  | ftruncate (fd : Fd) (size : U64)
  | futimens (fd : Fd) (atime mtime : Timespec)
  | utimensat (dir : Fd) (path : CStr) (atime mtime : Timespec)
  | dup (fd : Fd)
  | close (fd : Fd)
  | fsync (fd : Fd)
  | fdatasync (fd : Fd)
  | fsetxattr (fd : Fd) (name : CStr) (value : List Byte) (flags : U32)
  | fgetxattr (fd : Fd) (name : CStr) (size : U32)
  | flistxattr (fd : Fd) (size : U32)
  | fremovexattr (fd : Fd) (name : CStr)
  | fallocate (fd : Fd) (mode : U32) (offset length : U64)
  | copyFileRange (fdIn : Fd) (offIn : U64) (fdOut : Fd) (offOut len : U64) (flags : U32)
  | mmap (addr len : U64) (prot flags : U32) (fd : Option Fd) (offset : U64)
  | setresuid (euid : U32)
  | setresgid (egid : U32)
  deriving DecidableEq, Repr

/-- The answers to the calls, by their position in the sequence of all calls. -/
structure Host where
  /-- a new file descriptor -/
  fd : ℕ → Except Errno Fd
  /-- calls that return nothing -/
  unit : ℕ → Except Errno Unit
  closed : ℕ → Except Errno Unit
  /-- an anonymous mapping of whole pages -/
  anonymous : ℕ → Except Errno Unit
  /-- a number: bytes moved, or a position -/
  count : ℕ → Except Errno ℕ
  stat : ℕ → Except Errno Stat
  statvfs : ℕ → Except Errno Statvfs
  /-- the target of a link, or the value of an attribute -/
  bytes : ℕ → Except Errno (List Byte)
  dirents : ℕ → Except Errno (List DirEntry)
  /-- the content of the file that a call reads -/
  content : ℕ → List Byte
  /-- the program that is served under the name `init.krun` -/
  initBinary : List Byte
  /-- `close` and such mappings have other errors -/
  closed_ne_einval : ∀ n, closed n ≠ .error .einval
  anonymous_ne_einval : ∀ n, anonymous n ≠ .error .einval

structure Performed where
  call : SysCall
  euid : U32
  egid : U32
  /-- the request whose file-system call this is, for the calls that are to be made in the name of
  the requester -/
  requester : Option Context
  ok : Bool
  deriving DecidableEq, Repr

structure Thread where
  euid : U32
  egid : U32
  log : List Performed
  deriving DecidableEq, Repr

namespace Thread

/-- The thread when a call has returned. A credential of `-1` stands for the present one. -/
def perform (t : Thread) (call : SysCall) (requester : Option Context) (ok : Bool) : Thread where
  euid := match call, ok with
    | .setresuid euid, true => if euid = 0xffffffff then t.euid else euid
    | _, _ => t.euid
  egid := match call, ok with
    | .setresgid egid, true => if egid = 0xffffffff then t.egid else egid
    | _, _ => t.egid
  log := t.log ++ [⟨call, t.euid, t.egid, requester, ok⟩]

end Thread

def pageSize : ℕ := 4096

def pageAlign (len : ℕ) : ℕ := (len + 4095) / 4096 * 4096

end Shelter.Fs
