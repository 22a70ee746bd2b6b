import GasPool.Types
import GasPool.Core.Validity
import GasPool.SuiClient.LatestObjects
import GasPool.SuiClient.OwnedCoins
import GasPool.Core.Release
import GasPool.Store
import GasPool.Chain
import GasPool.System.Defs
import GasPool.System.Steps
import GasPool.System.Shutdown
import GasPool.System.Commit
import GasPool.System.Custody
import GasPool.System.Agreement
import GasPool.System.Conservation
import GasPool.System.Holdings
import GasPool.System.Progress
import GasPool.System.Signing
import GasPool.System.Protocol
import GasPool.System.Smashed
