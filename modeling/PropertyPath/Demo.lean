import PropertyPath.Json.Basic
import PropertyPath.Listing
import PropertyPath.Query.Basic

/-!
# A demonstration

One path, read from a text, shown as segments and as canonical text, and evaluated against a small
store.
-/

namespace PropertyPath.Demo

/-- A store with two books, as a document. -/
def store : Json :=
  .object
    [("name", .string "Foomart"),
      ("books", .array [book "Nigel Rees" 1996, book "Evelyn Waugh" 1997])]
where
  book (author : String) (year : Int) : Json :=
    .object
      [("author", .string author), ("written", .object [("year", .number (.integer year))])]

/-- How a signed word that may be missing is shown. -/
def intListing (value : Option Int64) : Listing :=
  .optional (value.map fun word ↦ .word (toString word))

/-- The lines of the demonstration, for the path written in a text. -/
def linesFor (text : String) : Except Fault (List String) := do
  let path ← Path.parse text
  let year ← (Query.ofPath path {}).eval store
  return [path.listing.oneLine, path.text,
    (intListing (year.bind fun node ↦ node.view.scalars.int)).oneLine]

/-- What the demonstration shows. -/
def lines : Except Fault (List String) := linesFor "books[1].written(year)"

end PropertyPath.Demo
