/-!
# Pages of a listing

A listing may be asked for one page. Pages count from 1, and a page size of -1 asks for every row
while the total is still reported. The position of the first row on a page has to be a machine word
of 64 bits. Where it is none, whoever asks for the page breaks off.

* `Pagination.window`: the rows to skip and to take.
* `Listing.paginate`: the page of a list of rows.
-/

namespace AccessAdmin

/-- Which page of a listing is wanted. -/
structure Pagination where
  current : UInt32
  pageSize : Int64
deriving DecidableEq, Repr

/-- The rows to skip and the most rows to take. -/
structure Window where
  offset : UInt64
  limit : UInt64
deriving DecidableEq, Repr

/-- A position is no machine word. This is no answer that anybody handles: the work that needs the
position breaks off. -/
structure Overflow
deriving DecidableEq, Repr

namespace Pagination

/-- Rows on a page when no positive size is given. -/
def defaultPageSize : Int64 := 10

/-- The page size that asks for every row. -/
def everyRow : Int64 := -1

/-- Every row, with the total. -/
def all : Pagination := ⟨1, everyRow⟩

/-- The number of the page that is answered; page 0 is taken as page 1. -/
def page (p : Pagination) : UInt32 :=
  if p.current = 0 then 1 else p.current

/-- The most rows on a page, unless every row is wanted. -/
def size (p : Pagination) : Nat :=
  (if p.pageSize ≤ 0 then defaultPageSize else p.pageSize).toInt.toNat

/-- The position of the first row on the page, where rows count from 0. -/
def first (p : Pagination) : Nat := (p.page.toNat - 1) * p.size

/-- Whether the page can be asked for: every row is wanted, or the first position is a machine
word. -/
def fits (p : Pagination) : Bool := p.pageSize = everyRow || p.first < UInt64.size

/-- The window of rows on the page, or `none` when every row is wanted. -/
def window (p : Pagination) : Except Overflow (Option Window) :=
  if p.pageSize = everyRow then .ok none
  else if h : p.first < UInt64.size then .ok (some ⟨.ofNatLT p.first h, .ofNat p.size⟩)
  else .error ⟨⟩

end Pagination

/-- What is reported about a page besides its rows. -/
structure PageInfo where
  total : Nat
  current : UInt32
  pageSize : Int64
deriving DecidableEq, Repr

/-- A listing, or one page of it. -/
structure Listing (α : Type) where
  data : List α
  page : Option PageInfo
deriving DecidableEq, Repr

namespace Listing

variable {α β : Type}

/-- A listing without paging. -/
def unpaged (data : List α) : Listing α := ⟨data, none⟩

/-- Wraps rows that are already cut to the page, given how many rows there are in all. -/
def withTotal (data : List α) (total : Nat) (pagination : Option Pagination) : Listing α :=
  ⟨data, pagination.map fun p => ⟨total, p.page, p.pageSize⟩⟩

/-- The rows on a page. -/
def cut (p : Pagination) (rows : List α) : List α :=
  if p.pageSize = Pagination.everyRow then rows else (rows.drop p.first).take p.size

/-- A page that can be asked for, of a complete, ordered list of rows. -/
def ofRows (rows : List α) (pagination : Option Pagination) : Listing α :=
  match pagination with
  | none => unpaged rows
  | some p => withTotal (cut p rows) rows.length (some p)

/-- The page of a complete, ordered list of rows. -/
def paginate (rows : List α) (pagination : Option Pagination) : Except Overflow (Listing α) :=
  if pagination.all Pagination.fits then .ok (ofRows rows pagination) else .error ⟨⟩

/-- The same page with every row changed. -/
def map (f : α → β) (l : Listing α) : Listing β := ⟨l.data.map f, l.page⟩

end Listing

/-- The paging parameters of a request, each optional. -/
structure PageQuery where
  current : Option UInt32 := none
  pageSize : Option Int64 := none
deriving DecidableEq, Repr

/-- Paging is asked for as soon as one of the two parameters is there. -/
def PageQuery.pagination (q : PageQuery) : Option Pagination :=
  match q.current, q.pageSize with
  | none, none => none
  | current, size => some ⟨current.getD 1, size.getD Pagination.defaultPageSize⟩

/-- What a listing loads beside its rows, and which page of it. -/
structure ListingOptions where
  actions : Bool := false
  resources : Bool := false
  grants : Bool := false
  roles : Bool := false
  pagination : Option Pagination := none
deriving DecidableEq, Repr

namespace ListingOptions

/-- Everything that belongs to the rows, unpaged. -/
def everything : ListingOptions := ⟨true, true, true, true, none⟩

/-- One page of bare rows. -/
def paged (pagination : Option Pagination) : ListingOptions := { pagination := pagination }

end ListingOptions

end AccessAdmin
