import CommandVM.Value

/-!
# Handles on shared cells

Values may be kept in cells that several handles share: named handles and the elements of lists. A
cell counts its handles. A change through a handle reuses the cell when that handle is the only one,
and otherwise moves the handle to a fresh cell, so no other handle sees it. A cell also keeps the
views that were taken of its content, for the next time; a change forgets them.
-/

namespace CommandVM

/-- What a cell holds; the elements of a list are handles on other cells. -/
inductive Content where
  | text (chars : String)
  | int (value : Int32)
  | wide (value : Int64)
  | double (value : Double)
  | list (cells : List Nat)

namespace Content

def ofNumber : Number → Content
  | .int v => .int v
  | .wide v => .wide v
  | .double v => .double v

def elements : Content → List Nat
  | .list cells => cells
  | _ => []

def number? : Content → Option Number
  | .int v => some (.int v)
  | .wide v => some (.wide v)
  | .double v => some (.double v)
  | _ => none

end Content

/-- The views that were taken of a content: its text unless it is one, its number unless it holds one,
and its list unless it is one. The elements of a list view are handles on other cells. -/
structure Views where
  text : Option String := none
  number : Option (Except Number.ReadError Number) := none
  items : Option (Except ListText.Error (List Nat)) := none

def Views.elements (views : Views) : List Nat :=
  match views.items with
  | some (.ok cells) => cells
  | _ => []

/-- A cell and the number of handles on it. -/
structure Cell where
  content : Content
  views : Views := {}
  holders : Nat

def Cell.children (c : Cell) : List Nat := c.content.elements ++ c.views.elements

/-- The cells that were ever made, by number; a cell without holders is free. -/
structure Pool where
  cells : List Cell := []

namespace Pool

def holders (p : Pool) (cell : Nat) : Nat := (p.cells[cell]?.map Cell.holders).getD 0

def total (p : Pool) : Nat := p.cells.foldl (fun total cell => total + cell.holders) 0

/-- The value that a cell denotes, down to `depth` levels of lists. -/
def valueTo (p : Pool) : Nat → Nat → Value
  | 0, _ => Value.empty
  | depth + 1, cell => match p.cells[cell]? with
    | none => Value.empty
    | some c => match c.content with
      | .text s => .text s
      | .int v => .int v
      | .wide v => .wide v
      | .double v => .double v
      | .list cells => .list (cells.map (p.valueTo depth))

/-- The value that a cell denotes. Lists do not contain themselves, so no chain of cells is longer
than their number. -/
def value (p : Pool) (cell : Nat) : Value := p.valueTo p.cells.length cell

def fresh (p : Pool) (content : Content) (views : Views) : Pool × Nat :=
  ({ cells := p.cells ++ [{ content, views, holders := 1 }] }, p.cells.length)

def retain (p : Pool) (cell : Nat) : Pool :=
  { cells := p.cells.modify cell fun c => { c with holders := c.holders + 1 } }

def retainAll (p : Pool) (cells : List Nat) : Pool := cells.foldl retain p

/-- Gives up `fuel` handles at most: those listed, and those that a cell holds when its last handle
goes. -/
def releaseFrom : Nat → List Nat → Pool → Pool
  | 0, _, p => p
  | _, [], p => p
  | fuel + 1, cell :: rest, p => match p.cells[cell]? with
    | none => releaseFrom fuel rest p
    | some c =>
      if c.holders ≤ 1 then
        releaseFrom fuel (c.children ++ rest)
          { cells := p.cells.set cell { content := .text "", holders := 0 } }
      else
        releaseFrom fuel rest { cells := p.cells.set cell { c with holders := c.holders - 1 } }

def releaseAll (p : Pool) (cells : List Nat) : Pool :=
  releaseFrom (p.total + cells.length) cells p

def release (p : Pool) (cell : Nat) : Pool := p.releaseAll [cell]

mutual

/-- A cell for a value, with fresh cells for the elements of lists. -/
def store : Value → Pool → Pool × Nat
  | .text s, p => p.fresh (.text s) {}
  | .int v, p => p.fresh (.int v) {}
  | .wide v, p => p.fresh (.wide v) {}
  | .double v, p => p.fresh (.double v) {}
  | .list items, p =>
    let (p, cells) := storeAll items p
    p.fresh (.list cells) {}

def storeAll : List Value → Pool → Pool × List Nat
  | [], p => (p, [])
  | v :: vs, p =>
    let (p, cell) := store v p
    let (p, cells) := storeAll vs p
    (p, cell :: cells)

end

/-! ### Views -/

def setViews (p : Pool) (cell : Nat) (f : Views → Views) : Pool :=
  { cells := p.cells.modify cell fun c => { c with views := f c.views } }

def keepText (p : Pool) (cell : Nat) (text : String) : String × Pool :=
  (text, p.setViews cell ({ · with text := some text }))

def lookEach {α : Type} (look : Nat → Pool → α × Pool) : List Nat → Pool → List α × Pool
  | [], p => ([], p)
  | cell :: cells, p =>
    let (view, p) := look cell p
    let (views, p) := lookEach look cells p
    (view :: views, p)

def lookTextTo : Nat → Nat → Pool → String × Pool
  | 0, _, p => ("", p)
  | depth + 1, cell, p => match p.cells[cell]? with
    | none => ("", p)
    | some c => match c.content, c.views.text with
      | .text s, _ => (s, p)
      | _, some s => (s, p)
      | .int v, none => p.keepText cell (Number.text (.int v))
      | .wide v, none => p.keepText cell (Number.text (.wide v))
      | .double v, none => p.keepText cell (Number.text (.double v))
      | .list cells, none =>
        let (texts, p) := lookEach (lookTextTo depth) cells p
        p.keepText cell (ListText.join texts)

def lookText (p : Pool) (cell : Nat) : String × Pool := lookTextTo p.cells.length cell p

def lookNumber (p : Pool) (cell : Nat) : Except Number.ReadError Number × Pool :=
  match p.cells[cell]? with
  | none => (.error .empty, p)
  | some c => match c.content.number?, c.views.number with
    | some n, _ => (.ok n, p)
    | none, some view => (view, p)
    | none, none =>
      let (text, p) := p.lookText cell
      let view := Number.read text
      (view, p.setViews cell ({ · with number := some view }))

def lookTruth (p : Pool) (cell : Nat) : Option Bool × Pool :=
  match p.lookNumber cell with
  | (.ok n, p) => (some (!n.isZero), p)
  | (.error _, p) =>
    let (text, p) := p.lookText cell
    (Number.truthWord? text.toList, p)

/-- The list view of a cell: handles on its elements, which stay with the cell. -/
def lookItems (p : Pool) (cell : Nat) : Except ListText.Error (List Nat) × Pool :=
  match p.cells[cell]? with
  | none => (.ok [], p)
  | some c => match c.content, c.views.items with
    | .list cells, _ => (.ok cells, p)
    | _, some view => (view, p)
    | _, none =>
      let (text, p) := p.lookText cell
      match ListText.split text with
      | .error e => (.error e, p.setViews cell ({ · with items := some (.error e) }))
      | .ok texts =>
        let (p, cells) := storeAll (texts.map Value.text) p
        (.ok cells, p.setViews cell ({ · with items := some (.ok cells) }))

/-! ### Changes -/

/-- Replaces what one handle on `cell` sees. The content takes over the handles listed in it. The
cell is reused when it has no other handle; otherwise the handle moves to a fresh cell. -/
def replace (p : Pool) (cell : Nat) (content : Content) : Pool × Nat :=
  if p.holders cell ≤ 1 then
    let old := (p.cells[cell]?.map Cell.children).getD []
    let p := { p with cells := p.cells.set cell { content, holders := 1 } }
    (p.releaseAll old, cell)
  else
    let (p, new) := p.fresh content {}
    (p.release cell, new)

/-- A handle on a cell of its own, with the same content and views. -/
def exclusive (p : Pool) (cell : Nat) : Pool × Nat :=
  match p.cells[cell]? with
  | none => (p, cell)
  | some c =>
    if c.holders ≤ 1 then (p, cell)
    else
      let (p, new) := (p.retainAll c.children).fresh c.content c.views
      (p.release cell, new)

def append (p : Pool) (cell : Nat) (more : String) : Pool × Nat :=
  let (text, p) := p.lookText cell
  p.replace cell (.text (text ++ more))

def setNumber (p : Pool) (cell : Nat) (n : Number) : Pool × Nat :=
  p.replace cell (.ofNumber n)

/-- The cell's list view with one more element, whose handle the list takes over. A cell without a
list view stays as it is and the handle is given up. -/
def push (p : Pool) (cell element : Nat) : Except ListText.Error Unit × Pool × Nat :=
  match p.lookItems cell with
  | (.error e, p) => (.error e, p.release element, cell)
  | (.ok cells, p) => (.ok (), (p.retainAll cells).replace cell (.list (cells ++ [element])))

end Pool

structure Handles where
  pool : Pool := {}
  names : List (String × Nat) := []

namespace Handles

inductive Op where
  /-- A handle on a fresh cell. -/
  | new (name : String) (value : Value)
  /-- Another handle on the cell of `source`. -/
  | clone (name source : String)
  /-- The handle is given up. -/
  | drop (name : String)
  | append (name : String) (more : String)
  /-- A fresh value as the last element. -/
  | push (name : String) (value : Value)
  /-- Another handle on the cell of `source` as the last element. -/
  | pushHandle (name source : String)
  | setNumber (name : String) (number : Number)
  | exclusive (name : String)
  /-- The text view is taken. -/
  | lookText (name : String)
  /-- The numeric view is taken. -/
  | lookNumber (name : String)
  /-- The truth view is taken. -/
  | lookTruth (name : String)
  /-- The list view is taken. -/
  | lookItems (name : String)

def cell? (h : Handles) (name : String) : Option Nat := h.names.lookup name

def value? (h : Handles) (name : String) : Option Value := (h.cell? name).map h.pool.value

def text? (h : Handles) (name : String) : Option String :=
  (h.cell? name).map fun cell => (h.pool.lookText cell).1

def number? (h : Handles) (name : String) : Option (Except Number.ReadError Number) :=
  (h.cell? name).map fun cell => (h.pool.lookNumber cell).1

def truth? (h : Handles) (name : String) : Option (Option Bool) :=
  (h.cell? name).map fun cell => (h.pool.lookTruth cell).1

def items? (h : Handles) (name : String) : Option (Except ListText.Error (List String)) :=
  (h.cell? name).map fun cell => match h.pool.lookItems cell with
    | (.ok cells, p) => .ok (cells.map fun element => (p.lookText element).1)
    | (.error e, _) => .error e

def shareCount (h : Handles) (name : String) : Nat :=
  ((h.cell? name).map h.pool.holders).getD 0

/-- Lets a name hold `cell`, whose handle it takes over, and gives up what it held before. -/
def bind (h : Handles) (name : String) (cell : Nat) (pool : Pool) : Handles :=
  match h.cell? name with
  | none => { pool, names := h.names ++ [(name, cell)] }
  | some old =>
    { pool := pool.release old
      names := h.names.map fun (n, c) => if n == name then (n, cell) else (n, c) }

/-- Lets a name hold the cell to which its handle moved. -/
def move (h : Handles) (name : String) (pool : Pool) (cell : Nat) : Handles :=
  { pool, names := h.names.map fun (n, c) => if n == name then (n, cell) else (n, c) }

def look (h : Handles) (name : String) (keep : Pool → Nat → Pool) : Handles :=
  match h.cell? name with
  | none => h
  | some cell => { h with pool := keep h.pool cell }

/-- Applies an operation. Only `push` and `pushHandle` can fail, and then change no value; an
unknown name makes any operation do nothing. -/
def apply (h : Handles) : Op → Except ListText.Error Unit × Handles
  | .new name value =>
    let (pool, cell) := Pool.store value h.pool
    (.ok (), h.bind name cell pool)
  | .clone name source => match h.cell? source with
    | none => (.ok (), h)
    | some cell => (.ok (), h.bind name cell (h.pool.retain cell))
  | .drop name => match h.cell? name with
    | none => (.ok (), h)
    | some cell =>
      (.ok (), { pool := h.pool.release cell, names := h.names.filter fun (n, _) => n != name })
  | .append name more => match h.cell? name with
    | none => (.ok (), h)
    | some cell =>
      let (pool, cell) := h.pool.append cell more
      (.ok (), h.move name pool cell)
  | .push name value => match h.cell? name with
    | none => (.ok (), h)
    | some cell =>
      let (pool, element) := Pool.store value h.pool
      let (done, pool, cell) := pool.push cell element
      (done, h.move name pool cell)
  | .pushHandle name source => match h.cell? name, h.cell? source with
    | some cell, some element =>
      let (done, pool, cell) := (h.pool.retain element).push cell element
      (done, h.move name pool cell)
    | _, _ => (.ok (), h)
  | .setNumber name number => match h.cell? name with
    | none => (.ok (), h)
    | some cell =>
      let (pool, cell) := h.pool.setNumber cell number
      (.ok (), h.move name pool cell)
  | .exclusive name => match h.cell? name with
    | none => (.ok (), h)
    | some cell =>
      let (pool, cell) := h.pool.exclusive cell
      (.ok (), h.move name pool cell)
  | .lookText name => (.ok (), h.look name fun p cell => (p.lookText cell).2)
  | .lookNumber name => (.ok (), h.look name fun p cell => (p.lookNumber cell).2)
  | .lookTruth name => (.ok (), h.look name fun p cell => (p.lookTruth cell).2)
  | .lookItems name => (.ok (), h.look name fun p cell => (p.lookItems cell).2)

def run (ops : List Op) : Handles := ops.foldl (fun h op => (h.apply op).2) {}

end Handles

end CommandVM
