import Mathlib.Data.Nat.Notation

/-!
# Build-time constants

The constants of `param.h` and `fs.h` (and the page size of `mmu.h`) that the modelled code
reads, under the names the headers give them.
-/

namespace OhMyXv6

/-- `param.h`: most blocks any file-system operation is expected to write. -/
def MAXOPBLOCKS : ℕ := 10

/-- `param.h`: data blocks the in-memory log header has room for. -/
def LOGSIZE : ℕ := MAXOPBLOCKS * 3

/-- `param.h`: buffers of the disk block cache. -/
def NBUF : ℕ := MAXOPBLOCKS * 3

/-- `mmu.h`: bytes of a page. User memory starts at the second one. -/
def PGSIZE : ℕ := 4096

/-- `param.h`: size of the file system, in blocks. -/
def FSSIZE : ℕ := 2000

/-- `fs.h`: bytes of a block. -/
def BSIZE : ℕ := 512

/-- `fs.h`: number of the root's inode. -/
def ROOTINO : ℕ := 1

/-- `fs.h`: block addresses an inode holds itself. -/
def NDIRECT : ℕ := 12

/-- `fs.h`: block addresses an indirect block holds. -/
def NINDIRECT : ℕ := BSIZE / 4

/-- `fs.h`: most blocks of one file. -/
def MAXFILE : ℕ := NDIRECT + NINDIRECT

/-- `fs.h`: bytes of `struct dinode`. -/
def DINODESIZE : ℕ := 64

/-- `fs.h`: inodes per block. -/
def IPB : ℕ := BSIZE / DINODESIZE

/-- `fs.h`: bitmap bits per block. -/
def BPB : ℕ := BSIZE * 8

/-- `fs.h`: bytes of a name in a directory entry. -/
def DIRSIZ : ℕ := 14

/-- `fs.h`: bytes of `struct dirent`. -/
def DIRENTSIZE : ℕ := 16

/-- `param.h`: most processes. -/
def NPROC : ℕ := 64

/-- There is room for another process than `init`. -/
lemma one_lt_NPROC : 1 < NPROC := by decide

lemma NPROC_pos : 0 < NPROC := Nat.zero_lt_of_lt one_lt_NPROC

/-- `param.h`: open files of one process. -/
def NOFILE : ℕ := 16

/-- `param.h`: open files of the system. -/
def NFILE : ℕ := 100

/-- `param.h`: entries of the inode cache. -/
def NINODE : ℕ := 50

/-- `param.h`: entries of the device table. -/
def NDEV : ℕ := 10

/-- `stat.h`: a directory. -/
def T_DIR : ℕ := 1

/-- `stat.h`: a regular file. -/
def T_FILE : ℕ := 2

/-- `stat.h`: a device. -/
def T_DEV : ℕ := 3

/-- `fcntl.h`. -/
def O_RDONLY : ℕ := 0x000

/-- `fcntl.h`: open for writing. -/
def O_WRONLY : ℕ := 0x001

/-- `fcntl.h`: open for both. -/
def O_RDWR : ℕ := 0x002

/-- `fcntl.h`: make the file if it is not there. -/
def O_CREATE : ℕ := 0x200

end OhMyXv6
