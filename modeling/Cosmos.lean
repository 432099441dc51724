import Cosmos.Yaml.Value
import Cosmos.Config.Tree
import Cosmos.Config.Apply
import Cosmos.Config.Heap
import Cosmos.Config.Refinement
import Cosmos.Config.Graph
import Cosmos.Environ
import Cosmos.Fs.Model
import Cosmos.Fs.Shutil
import Cosmos.Fs.Recopy
import Cosmos.Dbt.Project
import Cosmos.Dbt.TmpProject
import Cosmos.Dbt.Packages
import Cosmos.MonteCarlo
