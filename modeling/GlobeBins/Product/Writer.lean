import GlobeBins.Product

namespace GlobeBins

structure OpenProduct where
  region : String
  path : String
  grid : Grid
  lines : Array Json.Value

/-- Writes products to files, one value a line. The lines of the one that is open are held until it
is closed. -/
structure ProductWriter where
  directory : String
  current : Option OpenProduct
  /-- Paths of the products that were closed, in order. -/
  written : List String

namespace ProductWriter

def inDirectory (directory : String) : ProductWriter := ⟨directory,none,[]⟩

variable {m : Type → Type} [Monad m] (files : Files m)

def pathOf (w : ProductWriter) (metadata : Metadata) : String :=
  Files.join w.directory (Product.fileName metadata.region metadata.name)

/-- Nothing happens if no product is open. -/
def close (w : ProductWriter) : m (Except Fault Unit × ProductWriter) := do
  match w.current with
  | none => return (.ok (),w)
  | some p =>
    match ← files.write p.path (Text.toBytes (Product.text p.lines.toList)) with
    | .error f => return (.error (.output p.region f),⟨w.directory,none,w.written⟩)
    | .ok () => return (.ok (),⟨w.directory,none,w.written++[p.path]⟩)

/-- Opens a product when none is open. Without a grid only the header is written. -/
def openProduct (w : ProductWriter) (metadata : Metadata) :
    m (Except Fault Unit × ProductWriter) := do
  let path := w.pathOf metadata
  let header := Product.header metadata
  match ← files.write path [] with
  | .error f => return (.error (.output metadata.name f),w)
  | .ok () =>
    match Grid.make metadata.rows with
    | .ok grid => return (.ok (),⟨w.directory,some ⟨metadata.name,path,grid,#[header]⟩,w.written⟩)
    | .error f =>
      let _ ← files.write path (Text.toBytes (Product.text [header]))
      return (.error f,w)

def addBin (w : ProductWriter) (b : RegionBin Binary32) (output : List Binary32) :
    Except Fault Unit × ProductWriter :=
  match w.current with
  | none => (.error (.output "" .other),w)
  | some p =>
    let lines := p.lines.push (Product.record p.grid b output)
    (.ok (),⟨w.directory,some ⟨p.region,p.path,p.grid,lines⟩,w.written⟩)

def apply (call : ProductCall) (w : ProductWriter) : m (Except Fault Unit × ProductWriter) := do
  match call with
  | .start metadata =>
    match ← w.close files with
    | (.error f,w) => return (.error f,w)
    | (.ok (),w) => w.openProduct files metadata
  | .bin b output => return w.addBin b output
  | .finish => w.close files

/-- The writer as a sink of products. -/
def sink : ProductSink (StateT ProductWriter m) := fun call w => w.apply files call

theorem addBin_of_closed {w : ProductWriter} (b : RegionBin Binary32) (output : List Binary32)
    (h : w.current = none) : w.addBin b output = (.error (.output "" .other),w) := by
  simp [addBin,h]

end ProductWriter

end GlobeBins
