import Mathlib.Init

/-!
# Error numbers

Linux's `errno` values, as far as the code of this repository mentions them.
-/

set_option autoImplicit false

namespace Spectrum

abbrev Errno := Nat

def EPERM : Errno := 1
def ENOENT : Errno := 2
def EINTR : Errno := 4
def ENXIO : Errno := 6
def EBADF : Errno := 9
def EWOULDBLOCK : Errno := 11
def EBUSY : Errno := 16
def EEXIST : Errno := 17
def ENODEV : Errno := 19
def EINVAL : Errno := 22
def EMFILE : Errno := 24
def ERANGE : Errno := 34
def ENAMETOOLONG : Errno := 36
def EPROTO : Errno := 71

/-- What a failing call can leave in `errno`: the kernel reserves the numbers up to 4095. -/
def Errno.Valid (e : Errno) : Prop := 0 < e ∧ e < 4096

instance (e : Errno) : Decidable e.Valid := inferInstanceAs (Decidable (_ ∧ _))

theorem Errno.Valid.bounds {e : Nat} (h : Errno.Valid e) : 0 < e ∧ e < 4096 := h

end Spectrum
