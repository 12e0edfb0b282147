import PrefixLogic.Arguments

namespace PrefixLogic.Command

namespace Arguments

end Arguments

end PrefixLogic.Command
