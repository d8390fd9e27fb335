/-!
# Arithmetic

Sums of lists and powers of natural numbers are those of the core library, also
where the algebraic hierarchy is in scope. A statement then reads the same in
every module.
-/

namespace EditMining

attribute [scoped instance (high)] instPowNat Zero.ofOfNat0

end EditMining
