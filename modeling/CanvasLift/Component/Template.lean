import CanvasLift.Identifier

/-!
The sources that stand in where the canvas has no arm for a type: a curated one for the types that
have it, and for every other a placeholder that the completeness check reports.
-/

namespace CanvasLift.Component.Template

def stub (id : Text) : Text :=
  "\"use client\";\n\n" ++
  "// Placeholder: replace with the full markup of the canvas element type \"" ++ id ++ "\".\n" ++
  "// Run `canvasgen check " ++ id ++ "` after copying the UI over.\n" ++
  "export default function " ++ Identifier.componentName id ++ "() \x7b\n" ++
  "  return <div data-component-id=\"" ++ id ++ "\">" ++ id ++ "</div>;\n" ++
  "\x7d\n"

def card2Lines : List String := [
    "\"use client\";",
    "",
    "import \x7b Catalog \x7d from \"@carbon/icons-react\";",
    "",
    "export interface Card2Props \x7b",
    "  title?: string;",
    "  label?: string;",
    "  description?: string;",
    "\x7d",
    "",
    "export default function Card2(\x7b",
    "  title,",
    "  label,",
    "  description = \"Outline button component for secondary actions.\",",
    "\x7d: Card2Props = \x7b\x7d) \x7b",
    "  const heading = title ?? label ?? \"Title\";",
    "  return (",
    "    <div className=\"min-w-64 w-full max-w-full h-[323px] rounded-large overflow-hidden bg-brandcolor-white shadow-card flex flex-col\">",
    "      <div className=\"bg-brandcolor-fill px-4 py-3 rounded-b-button shrink-0\">",
    "        <div className=\"flex items-center gap-2\">",
    "          <Catalog size=\x7b20\x7d className=\"text-brandcolor-strokestrong shrink-0\" aria-hidden />",
    "          <h3 className=\"text-sm font-semibold text-brandcolor-textstrong\">",
    "            \x7bheading\x7d",
    "          </h3>",
    "        </div>",
    "        \x7bdescription && (",
    "          <p className=\"mt-1.5 text-xs text-brandcolor-textweak\">",
    "            \x7bdescription\x7d",
    "          </p>",
    "        )\x7d",
    "      </div>",
    "      <div className=\"flex flex-col flex-1 min-h-0 items-center justify-center p-4\">",
    "        <img src=\"/Button.svg\" alt=\"\" className=\"max-w-full h-auto shrink-0\" width=\x7b107\x7d height=\x7b40\x7d />",
    "      </div>",
    "    </div>",
    "  );",
    "\x7d",
    ""]

def card2 : Text := Text.unlines (card2Lines.map String.toList)

def curated : List (Text × Text) := [("card-2", card2)]

def curated? (id : Text) : Option Text := curated.lookup (Identifier.sanitize id)

def fallback (id : Text) : Text := (curated? id).getD (stub (Identifier.sanitize id))

end CanvasLift.Component.Template
