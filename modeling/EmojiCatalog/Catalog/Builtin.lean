import EmojiCatalog.Catalog.Builder
/-!
The built-in emoji catalog: four categories, thirteen subcategories of ten items each.
-/

namespace EmojiCatalog.Catalog

/-- The rows of the built-in catalog. -/
def builtinRows : List Row :=
  [
    ⟨"faces", ⟨"happy",
      ["😀", "😁", "😂", "🤣", "😃", "😄", "😅", "😆", "😊", "😇"]⟩⟩,
    ⟨"faces", ⟨"sad",
      ["😢", "😭", "😞", "😔", "😟", "😕", "🙁", "☹️", "😣", "😖"]⟩⟩,
    ⟨"faces", ⟨"love",
      ["😍", "🥰", "😘", "😗", "😙", "😚", "💕", "💖", "💗", "💘"]⟩⟩,
    ⟨"faces", ⟨"angry",
      ["😠", "😡", "🤬", "👿", "💢", "😤", "😾", "🙄", "😒", "🗯️"]⟩⟩,
    ⟨"nature", ⟨"animals",
      ["🐶", "🐱", "🐭", "🐹", "🐰", "🦊", "🐻", "🐼", "🐨", "🐯"]⟩⟩,
    ⟨"nature", ⟨"plants",
      ["🌱", "🌲", "🌳", "🌴", "🌵", "🌶️", "🌷", "🌸", "🌹", "🌺"]⟩⟩,
    ⟨"nature", ⟨"weather",
      ["☀️", "⛅", "☁️", "🌤️", "⛈️", "🌩️", "🌨️", "❄️", "⛄", "🌊"]⟩⟩,
    ⟨"objects", ⟨"technology",
      ["💻", "📱", "⌨️", "🖥️", "🖨️", "📺", "📷", "📹", "🎥", "📞"]⟩⟩,
    ⟨"objects", ⟨"tools",
      ["🔧", "🔨", "⚒️", "🛠️", "⛏️", "🔩", "⚙️", "🧰", "🔧", "🗜️"]⟩⟩,
    ⟨"objects", ⟨"transport",
      ["🚗", "🚕", "🚙", "🚌", "🚎", "🏎️", "🚓", "🚑", "🚒", "🚐"]⟩⟩,
    ⟨"symbols", ⟨"arrows",
      ["⬆️", "⬇️", "⬅️", "➡️", "↗️", "↘️", "↙️", "↖️", "↕️", "↔️"]⟩⟩,
    ⟨"symbols", ⟨"shapes",
      ["🔴", "🟠", "🟡", "🟢", "🔵", "🟣", "⚫", "⚪", "🟤", "🔶"]⟩⟩,
    ⟨"symbols", ⟨"numbers",
      ["0️⃣", "1️⃣", "2️⃣", "3️⃣", "4️⃣", "5️⃣", "6️⃣", "7️⃣", "8️⃣", "9️⃣"]⟩⟩
  ]

/-- The built-in catalog. -/
def builtin : Catalog :=
  match build builtinRows with
  | .ok c => c
  | .error _ => empty

end EmojiCatalog.Catalog
