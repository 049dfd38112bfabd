import Mathlib

namespace DeltaOS.Kernel

abbrev Word := BitVec 64

inductive KernelError
  | outOfMemory
  | invalidAddress
  | pageNotMapped
  | pageAlreadyMapped
  | invalidArgument
  | deviceNotFound
  | fileSystemNotFound
  | fileNotFound
  | ioError
  | moduleNotFound
  | accessDenied
  | generalFault
deriving DecidableEq, Repr

abbrev KernelResult (α : Type) := Except KernelError α

def pageSize : Nat := 4096
def kernelBase : Nat := 0x100000
def heapBase : Nat := 0x800000
def heapSize : Nat := 0x200000
def pmmBitmapBase : Nat := 0x500000
def pmmBitmapSize : Nat := 0x200000
def vmmPagesBase : Nat := 0x700000
def vmmPagesSize : Nat := 0x100000
def taskStacksBase : Nat := 0xA00000

end DeltaOS.Kernel
