import ClassLang.Code.Instruction
import ClassLang.Error.Internal

/-!
# Address books

While a function is lowered, an address book says where its variables are: operands
that hold the address of a symbol, in the order they were recorded.
-/

namespace ClassLang

/-- Where the symbols of a function are. -/
structure AddressBook where
  /-- The function, for messages. -/
  function : String
  /-- Symbols and places, in the order they were recorded. -/
  places : List (SymbolId × Operand) := []
  deriving DecidableEq, Repr, Inhabited

namespace AddressBook

/-- Records a place of a symbol; a place that is known already stays where it is. -/
def record (book : AddressBook) (symbol : SymbolId) (place : Operand) : AddressBook :=
  if book.places.contains (symbol, place) then book
  else { book with places := book.places ++ [(symbol, place)] }

/-- Removes a place of a symbol. -/
def forget (book : AddressBook) (symbol : SymbolId) (place : Operand) : AddressBook :=
  { book with places := book.places.filter fun known => known != (symbol, place) }

/-- The places of a symbol, in the order they were recorded. -/
def locations (book : AddressBook) (symbol : SymbolId) : List Operand :=
  (book.places.filter fun known => known.1 == symbol).map Prod.snd

/-- A recorded place is among the places of its symbol. -/
theorem mem_locations_record (book : AddressBook) (symbol : SymbolId) (place : Operand) :
    place ∈ (book.record symbol place).locations symbol := by
  simp only [locations, record]
  split
  · next known => exact List.mem_map.2 ⟨(symbol, place), by simp_all, rfl⟩
  · simp

/-- Recording a place changes nothing for other symbols. -/
theorem locations_record_of_ne (book : AddressBook) {symbol other : SymbolId}
    (place : Operand) (h : symbol ≠ other) :
    (book.record symbol place).locations other = book.locations other := by
  simp only [locations, record]
  split
  · rfl
  · simp [h]

/-- The address of a symbol: the first place that is a pointer. -/
def current (book : AddressBook) (symbol : SymbolId) (symbols : SymbolTable) :
    Except InternalError Operand :=
  match (book.locations symbol).find? fun place => place.ty.pointee?.isSome with
  | some place => .ok place
  | none =>
    let known := (book.locations symbol).map fun place => place.text ++ ": " ++ place.ty.text
    .error (.missingAddress (symbols.name symbol) book.function (", ".intercalate known))

end AddressBook

end ClassLang
