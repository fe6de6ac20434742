import Mathlib.Tactic.Common
/-!
# Kernel types (`include/kernel/types.h`, `errno.h`, `kobject.h`, `config.h`, `syscall.h`)

What models a function, a type or a constant of the source has its name here, in camel case. Status codes are the
integers the kernel returns: zero, or a negated errno.
-/
namespace AISafeOS
abbrev KernelStatus := Int
def kernelOk : KernelStatus := 0

def ePERM : Int := 1
def eNOENT : Int := 2
def eSRCH : Int := 3
def eAGAIN : Int := 11
def eNOMEM : Int := 12
def eACCES : Int := 13
def eBUSY : Int := 16
def eEXIST : Int := 17
def eINVAL : Int := 22
def eNOSYS : Int := 38
def configMaxCspaces : Nat := 32
def configMaxThreads : Nat := 256
def kobjIdInvalid : UInt32 := 0

/-- `kobj_type_t`. `typeCount` stands for `KOBJ_TYPE_COUNT` and everything above it, which every function that is
given a type rejects alike. -/
inductive KObjType where
  | thread | endpoint | notification | cspace | vmSpace | pageFrame | interrupt | device | channel | connection | shm
  | fd | inode | memoryRegion | typeCount
  deriving DecidableEq

/-- `syscall_frame_t`: the call number in `x8`, the arguments from `x0` on, and the result in `x0`. -/
structure SyscallFrame where
  x0 : UInt64
  x1 : UInt64
  x2 : UInt64
  x8 : UInt64
  deriving DecidableEq

def SyscallFrame.nr (f : SyscallFrame) : UInt32 := f.x8.toUInt32
def SyscallFrame.ret (f : SyscallFrame) (v : Int) : SyscallFrame := { f with x0 := UInt64.ofInt v }

end AISafeOS
