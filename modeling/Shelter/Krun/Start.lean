import Shelter.Krun.Context

/-!
# The command line of a virtual machine

`krun_start_enter` formats what the context keeps into the beginning and the end of the kernel
command line, and `build_microvm` inserts them, with the entries of the devices between. The two
insertions are unwrapped.
-/

namespace Shelter.Krun

open Kernel Cmdline List

namespace ContextConfig

variable (cfg : ContextConfig)

end ContextConfig

def Printable (o : Option Str) : Prop := ∀ s ∈ o, s.all validChar = true

/-! ## Insertions -/

end Shelter.Krun
