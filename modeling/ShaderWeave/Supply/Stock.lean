import ShaderWeave.Supply.Library
import ShaderWeave.Supply.Disk

/-!
# Suppliers chosen at run time

The ready-made suppliers as one type, for callers that pick one while running:
a library, the files of a disk, a rule that answers from the path alone, and a
script of prepared answers.

## Main definitions

- `Stock`: the state of a ready-made supplier.
- `Stock.supplier`: answers requests from a stock.
- `Stock.reset`: forget what was handed out.
-/

namespace ShaderWeave

/-- The state of one of the ready-made suppliers. -/
inductive Stock where
  | library (lib : Library)
  | files (search : SearchPath) (disk : Disk)
  /-- Every path is answered in the same way each time. -/
  | rule (answer : String → Reply)
  /-- Prepared answers, given in turn whatever the path. -/
  | script (answers : List Reply)

namespace Stock

/-- The answer to a request, and the stock after it. -/
def request : Stock → String → Reply × Stock
  | library lib, path =>
    let (reply, lib) := lib.request path
    (reply, library lib)
  | files search disk, path =>
    let (reply, search) := search.request disk.fileSystem path
    (reply, files search disk)
  | rule answer, path => (answer path, rule answer)
  | script [], _ => (.failed (.other "script exhausted"), script [])
  | script (reply :: answers), _ => (reply, script answers)

def supplier : Supplier Stock :=
  ⟨request⟩

/-- Forget what was handed out. Rules and scripts remember nothing. -/
def reset : Stock → Stock
  | library lib => library lib.reset
  | files search disk => files search.reset disk
  | stock => stock

end Stock

end ShaderWeave
