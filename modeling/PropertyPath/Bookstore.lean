import PropertyPath.Value.Host

/-!
# A bookstore

Records as a host program has them: persons, books and a store. The store finds books and prices
by title; of two books with one title it finds the first.
-/

namespace PropertyPath

structure Person where
  name : String
deriving DecidableEq, Repr

structure Book where
  author : String
  title : Option String
  price : UInt32
  /-- The years of the book, by what happened in them. -/
  written : List (String × Int64)
  tags : List String
deriving DecidableEq, Repr

structure Bookstore where
  owner : Person
  name : String
  books : List Book
deriving DecidableEq, Repr

def Person.toHost (person : Person) : Host :=
  .ofRecord "Person" [("name", .ofString person.name)] []

/-- A price as an unsigned integer of 32 bits. -/
def priceToHost (price : UInt32) : Host :=
  .scalar (.integer
    { type := ⟨false, .bits32⟩
      value := price.toNat
      inRange := by
        have := price.toNat_lt
        change 0 ≤ (price.toNat : Int) ∧ (price.toNat : Int) ≤ ↑(2 ^ 32 : Nat) - 1
        omega })

/-- A year as a signed integer of 64 bits. -/
def yearToHost (year : Int64) : Host :=
  .scalar (.integer
    { type := ⟨true, .bits64⟩
      value := year.toInt
      inRange := by
        have := year.le_toInt
        have := year.toInt_lt
        change -↑(2 ^ 64 / 2 : Nat) ≤ year.toInt ∧ year.toInt ≤ ↑(2 ^ 64 / 2 : Nat) - 1
        omega })

namespace Book

def toHost (book : Book) : Host :=
  .ofRecord "Book"
    [("author", .ofString book.author),
      ("title", .ofOption (book.title.map .ofString)),
      ("price", priceToHost book.price),
      ("written", .mapping .hashed (book.written.map fun entry ↦ (entry.1, yearToHost entry.2))),
      ("tags", .sequence .vector (book.tags.map .ofString))]
    []

end Book

namespace Bookstore

/-- A table by title of something about each book that has a title. -/
def byTitle (store : Bookstore) (about : Book → Host) : List (String × Host) :=
  store.books.filterMap fun book ↦ book.title.map fun title ↦ (title, about book)

def toHost (store : Bookstore) : Host :=
  .ofRecord "Store"
    [("owner", store.owner.toHost),
      ("name", .ofString store.name),
      ("books", .sequence .vector (store.books.map Book.toHost))]
    [("book", store.byTitle Book.toHost),
      ("price", store.byTitle fun book ↦ priceToHost book.price)]

end Bookstore

end PropertyPath
