import SkyResolver.Cache

/-! Choosing among the addresses of one service: a primary and those that stand in for it. The first
address that passes a check is used, and remembered for some time; a failed check is never
remembered. -/
namespace SkyResolver

/-- The addresses of a service, and the one that passed a check last. -/
structure AddressBook where
  primary : String
  others : List String
  memory : Cache Unit String

namespace AddressBook

def unchecked (primary : String) (others : List String) (ttl : Duration) : AddressBook :=
  ⟨primary, others, Cache.empty ttl⟩

/-- All addresses in the order in which they are checked. -/
def addresses (book : AddressBook) : List String := book.primary :: book.others

/-- The first address that passes a check; those behind it are not checked. -/
def firstPassing {σ : Type} (passes : String → StateM σ Bool) :
    List String → StateM σ (Option String)
  | [] => pure none
  | url :: urls => do
    if ← passes url then pure (some url) else firstPassing passes urls

/-- The remembered address if there is one; else the first address that passes a check, which is
remembered from then on; else the primary, whose own failure then tells what is wrong. The clock is
read from the state of the world. -/
def choose {σ : Type} (clock : σ → Nat) (passes : String → StateM σ Bool) (book : AddressBook) :
    StateM σ (String × AddressBook) := do
  match book.memory.get? (clock (← get)) () with
  | some url => pure (url, book)
  | none =>
    match ← firstPassing passes book.addresses with
    | some url => pure (url, { book with memory := book.memory.insert (clock (← get)) () url })
    | none => pure (book.primary, book)

end AddressBook
end SkyResolver
