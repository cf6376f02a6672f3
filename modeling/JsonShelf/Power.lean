/-
**Powers of whole numbers.**

A power with a natural number as exponent is the one of the core library, also where a library of
algebra is imported that has its own.  Definitions mean the same to the program, which is built
without such a library, and to the proofs about it.
-/

set_option autoImplicit false

attribute [instance (2000), default_instance 20000] instPowNat
